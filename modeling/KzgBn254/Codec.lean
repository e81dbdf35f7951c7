import KzgBn254.Polynomial
import Mathlib.Data.Nat.Digits

/-!
# Padding blob bytes and reading them as field elements

`blob.rs` calls three functions of the `helpers` module, which is not among the
sources.  This module models them from the spec.

* `convertByPaddingEmptyByte` cuts the data into consecutive 31-byte groups, the
  last one possibly shorter and not extended, and writes every group behind one
  zero byte.
* `removeEmptyByteFromPaddedBytes` cuts padded bytes into 32-byte groups and drops
  the leading byte of each.
* `toFrArray` reads every 32-byte group, the last one zero-extended on the right,
  as a big-endian integer reduced into `Fr`.

**Results.**
* `removeEmptyByteFromPaddedBytes_convertByPaddingEmptyByte`: removing the padding
  gives the data back, for every byte sequence.
* `length_convertByPaddingEmptyByte` and `getElem?_convertByPaddingEmptyByte`: the
  padded form of `n` bytes has `n + ⌈n / 31⌉` bytes, and its byte `i` is zero when
  `32 ∣ i` and data byte `i - i / 32 - 1` otherwise.
* `isPaddedBytes_iff`: the padded forms are exactly the byte strings with a zero
  at every index divisible by 32 and a length not `1` modulo 32.
* `val_getElem?_toFrArray`: element `i` of `toFrArray` is 32-byte group `i` read
  big-endian and reduced modulo the field order;
  `val_getElem?_toFrArray_of_isPaddedBytes`: on a padded form nothing is reduced.
* `toFrArray_convertByPaddingEmptyByte_lt` and `toFrArray_convertByPaddingEmptyByte_inj`:
  a padded form reads as field elements below `2 ^ 248`, and the elements together
  with the data length determine the data.
-/

namespace KzgBn254

/-- Induction over a list cut into groups of `n`: the empty list, a last group,
and a full group in front of a nonempty rest. -/
theorem groups_induction {α : Type} {n : Nat} (hn : 0 < n) {motive : List α → Prop}
    (nil : motive [])
    (last : ∀ data, data ≠ [] → data.length ≤ n → motive data)
    (group : ∀ g rest, g.length = n → rest ≠ [] → motive rest → motive (g ++ rest))
    (data : List α) : motive data := by
  by_cases hs : data.length ≤ n
  · rcases data with _ | ⟨a, l⟩
    · exact nil
    · exact last _ (List.cons_ne_nil a l) hs
  · rw [← List.take_append_drop n data]
    exact group _ _ (List.length_take_of_le (by omega))
      (by simp only [ne_eq, List.drop_eq_nil_iff]; omega)
      (groups_induction hn nil last group (data.drop n))
termination_by data.length
decreasing_by simp; omega

theorem append_ne_nil_of_length {α : Type} {g : List α} {n : Nat} (rest : List α)
    (hg : g.length = n) (hn : 0 < n) : g ++ rest ≠ [] := by
  intro h
  simp only [List.append_eq_nil] at h
  simp [h.1] at hg
  omega

section Padding

variable {data g rest : List UInt8} {b : UInt8}

/-- Modelled from the spec: `helpers::convert_by_padding_empty_byte` is not among
the sources.  The data is cut into consecutive 31-byte groups, the last one
possibly shorter, and every group is written behind one zero byte. -/
def convertByPaddingEmptyByte (data : List UInt8) : List UInt8 :=
  match data with
  | [] => []
  | b :: rest =>
      0 :: (b :: rest).take 31 ++ convertByPaddingEmptyByte ((b :: rest).drop 31)
termination_by data.length

/-- Modelled from the spec: `helpers::remove_empty_byte_from_padded_bytes` is not
among the sources.  The bytes are cut into consecutive 32-byte groups and the
leading byte of every group is dropped. -/
def removeEmptyByteFromPaddedBytes (data : List UInt8) : List UInt8 :=
  match data with
  | [] => []
  | _ :: rest => rest.take 31 ++ removeEmptyByteFromPaddedBytes (rest.drop 31)
termination_by data.length

@[simp] theorem convertByPaddingEmptyByte_nil : convertByPaddingEmptyByte [] = [] := by
  rw [convertByPaddingEmptyByte]

theorem convertByPaddingEmptyByte_of_ne_nil (h : data ≠ []) :
    convertByPaddingEmptyByte data =
      0 :: data.take 31 ++ convertByPaddingEmptyByte (data.drop 31) := by
  rcases data with _ | ⟨b, rest⟩
  · contradiction
  · rw [convertByPaddingEmptyByte]

/-- A last group of at most 31 bytes gets its zero byte and nothing else. -/
theorem convertByPaddingEmptyByte_of_length_le (h0 : data ≠ []) (h : data.length ≤ 31) :
    convertByPaddingEmptyByte data = 0 :: data := by
  rw [convertByPaddingEmptyByte_of_ne_nil h0, List.take_of_length_le h,
    List.drop_eq_nil_of_le h, convertByPaddingEmptyByte_nil, List.append_nil]

/-- A full group of 31 bytes becomes the 32-byte group in front of the padded rest. -/
theorem convertByPaddingEmptyByte_append (hg : g.length = 31) :
    convertByPaddingEmptyByte (g ++ rest) = 0 :: g ++ convertByPaddingEmptyByte rest := by
  rw [convertByPaddingEmptyByte_of_ne_nil (append_ne_nil_of_length rest hg (by decide)),
    List.take_left' hg, List.drop_left' hg]

@[simp] theorem removeEmptyByteFromPaddedBytes_nil :
    removeEmptyByteFromPaddedBytes [] = [] := by
  rw [removeEmptyByteFromPaddedBytes]

theorem removeEmptyByteFromPaddedBytes_cons :
    removeEmptyByteFromPaddedBytes (b :: rest) =
      rest.take 31 ++ removeEmptyByteFromPaddedBytes (rest.drop 31) := by
  rw [removeEmptyByteFromPaddedBytes]

/-- A last group of at most 32 bytes loses its leading byte. -/
theorem removeEmptyByteFromPaddedBytes_cons_of_length_le (h : rest.length ≤ 31) :
    removeEmptyByteFromPaddedBytes (b :: rest) = rest := by
  rw [removeEmptyByteFromPaddedBytes_cons, List.take_of_length_le h,
    List.drop_eq_nil_of_le h, removeEmptyByteFromPaddedBytes_nil, List.append_nil]

/-- A full 32-byte group loses its leading byte in front of the unpadded rest. -/
theorem removeEmptyByteFromPaddedBytes_cons_append (hg : g.length = 31) :
    removeEmptyByteFromPaddedBytes (b :: g ++ rest) =
      g ++ removeEmptyByteFromPaddedBytes rest := by
  rw [List.cons_append, removeEmptyByteFromPaddedBytes_cons, List.take_left' hg,
    List.drop_left' hg]

/-- Removing the padding gives the data back, for every byte sequence. -/
theorem removeEmptyByteFromPaddedBytes_convertByPaddingEmptyByte (data : List UInt8) :
    removeEmptyByteFromPaddedBytes (convertByPaddingEmptyByte data) = data := by
  induction data using groups_induction (n := 31) (by decide) with
  | nil => simp
  | last data h0 h =>
      rw [convertByPaddingEmptyByte_of_length_le h0 h,
        removeEmptyByteFromPaddedBytes_cons_of_length_le h]
  | group g rest hg _ ih =>
      rw [convertByPaddingEmptyByte_append hg,
        removeEmptyByteFromPaddedBytes_cons_append hg, ih]

example : convertByPaddingEmptyByte [104, 105] = [0, 104, 105] ∧
    removeEmptyByteFromPaddedBytes [0, 104, 105] = [104, 105] :=
  ⟨convertByPaddingEmptyByte_of_length_le (by simp) (by simp),
    removeEmptyByteFromPaddedBytes_cons_of_length_le (by simp)⟩

/-- The padded form of `n` bytes has `n + ⌈n / 31⌉` bytes. -/
@[simp] theorem length_convertByPaddingEmptyByte (data : List UInt8) :
    (convertByPaddingEmptyByte data).length = data.length + (data.length + 30) / 31 := by
  induction data using groups_induction (n := 31) (by decide) with
  | nil => simp
  | last data h0 h =>
      have := List.length_pos.2 h0
      rw [convertByPaddingEmptyByte_of_length_le h0 h, List.length_cons]
      omega
  | group g rest hg _ ih =>
      rw [convertByPaddingEmptyByte_append hg]
      simp only [List.length_append, List.length_cons, hg, ih]
      omega

example : (convertByPaddingEmptyByte (List.replicate 62 1)).length = 64 := by
  simp

/-- `out` is `data` cut into consecutive 31-byte groups, the last one possibly
shorter and not extended, with every group written behind one zero byte. -/
def IsGroupPadding (data out : List UInt8) : Prop :=
  ∃ groups : List (List UInt8),
    groups.flatten = data ∧ (∀ grp ∈ groups, 0 < grp.length ∧ grp.length ≤ 31) ∧
      (∀ grp ∈ groups.dropLast, grp.length = 31) ∧ out = groups.flatMap (0 :: ·)

/-- `convertByPaddingEmptyByte` writes the 31-byte groups of its input in order,
each behind a zero byte. -/
theorem isGroupPadding_convertByPaddingEmptyByte (data : List UInt8) :
    IsGroupPadding data (convertByPaddingEmptyByte data) := by
  induction data using groups_induction (n := 31) (by decide) with
  | nil => exact ⟨[], by simp⟩
  | last data h0 h =>
      refine ⟨[data], by simp, ?_, by simp, ?_⟩
      · simpa using ⟨List.length_pos.2 h0, h⟩
      · simp [convertByPaddingEmptyByte_of_length_le h0 h]
  | group g rest hg hrest ih =>
      obtain ⟨groups, hflat, hlen, hfull, hout⟩ := ih
      have hne : groups ≠ [] := by rintro rfl; exact hrest hflat.symm
      refine ⟨g :: groups, by simp [hflat], ?_, ?_, ?_⟩
      · simpa [hg] using hlen
      · simpa [List.dropLast_cons_of_ne_nil hne, hg] using hfull
      · simp [convertByPaddingEmptyByte_append hg, hout]

/-- Inside the first 32-byte group, byte `i` is the zero byte or data byte `i - 1`. -/
theorem getElem?_zero_cons {t : List UInt8} (rest : List UInt8) {i : Nat} (hi : i ≤ t.length)
    (ht : t.length ≤ 31) :
    (0 :: t)[i]? = if i % 32 = 0 then some 0 else (t ++ rest)[i - i / 32 - 1]? := by
  rcases i with _ | j
  · simp
  · have h1 : (j + 1) % 32 ≠ 0 := by omega
    have h2 : j + 1 - (j + 1) / 32 - 1 = j := by omega
    rw [List.getElem?_cons_succ, if_neg h1, h2, List.getElem?_append_left (by omega)]

/-- Byte `i` of the padded form: zero at the head of every 32-byte group, data byte
`i - i / 32 - 1` elsewhere. -/
theorem getElem?_convertByPaddingEmptyByte (data : List UInt8) {i : Nat}
    (hi : i < (convertByPaddingEmptyByte data).length) :
    (convertByPaddingEmptyByte data)[i]? =
      if i % 32 = 0 then some 0 else data[i - i / 32 - 1]? := by
  induction data using groups_induction (n := 31) (by decide) generalizing i with
  | nil => simp at hi
  | last data h0 h =>
      rw [convertByPaddingEmptyByte_of_length_le h0 h] at hi ⊢
      exact (getElem?_zero_cons [] (Nat.lt_succ_iff.1 hi) h).trans (by rw [List.append_nil])
  | group g rest hg _ ih =>
      have hlen : (0 :: g).length = 32 := by simp [hg]
      rw [convertByPaddingEmptyByte_append hg] at hi ⊢
      rw [List.length_append, hlen] at hi
      by_cases hlt : i < 32
      · rw [List.getElem?_append_left (by omega)]
        exact getElem?_zero_cons rest (by omega) hg.le
      · -- a later group: shift by one group of the output and one of the data
        obtain ⟨j, rfl⟩ : ∃ j, i = j + 32 := ⟨i - 32, by omega⟩
        rw [List.getElem?_append_right (by omega), hlen, Nat.add_sub_cancel, ih (by omega),
          Nat.add_mod_right]
        split_ifs
        · rfl
        · rw [List.getElem?_append_right (by omega : g.length ≤ j + 32 - (j + 32) / 32 - 1), hg]
          congr 1
          omega

/-- The shape of a padded form: a zero byte at every index divisible by 32, and no
32-byte group made of its zero byte alone. -/
def IsPaddedBytes (data : List UInt8) : Prop :=
  (∀ i, i < data.length → i % 32 = 0 → data[i]? = some 0) ∧ data.length % 32 ≠ 1

instance : DecidablePred IsPaddedBytes :=
  fun _ => inferInstanceAs (Decidable (_ ∧ _))

theorem isPaddedBytes_convertByPaddingEmptyByte (data : List UInt8) :
    IsPaddedBytes (convertByPaddingEmptyByte data) := by
  refine ⟨fun i hi h0 => ?_, by simp; omega⟩
  rw [getElem?_convertByPaddingEmptyByte data hi, if_pos h0]

/-- The tail of a padded form behind a full 32-byte group is a padded form. -/
theorem IsPaddedBytes.of_append (hg : g.length = 32) (h : IsPaddedBytes (g ++ rest)) :
    IsPaddedBytes rest := by
  refine ⟨fun i hi h0 => ?_, by simpa [hg, Nat.add_mod_left] using h.2⟩
  have := h.1 (i + 32) (by simp [hg]; omega) (by omega)
  rwa [List.getElem?_append_right (by omega), hg, Nat.add_sub_cancel] at this

/-- The padded forms are exactly the byte strings of `IsPaddedBytes` shape. -/
theorem isPaddedBytes_iff (data : List UInt8) :
    IsPaddedBytes data ↔ ∃ raw, convertByPaddingEmptyByte raw = data := by
  refine ⟨fun h => ?_, fun ⟨raw, hraw⟩ => hraw ▸ isPaddedBytes_convertByPaddingEmptyByte raw⟩
  induction data using groups_induction (n := 32) (by decide) with
  | nil => exact ⟨[], convertByPaddingEmptyByte_nil⟩
  | last data h0 hle =>
      obtain ⟨b, rest, rfl⟩ := List.exists_cons_of_ne_nil h0
      have hb : b = 0 := by simpa using h.1 0 (by simp) rfl
      have hrest : rest ≠ [] := by rintro rfl; exact h.2 rfl
      refine ⟨rest, ?_⟩
      rw [convertByPaddingEmptyByte_of_length_le hrest (by simpa using hle), hb]
  | group g rest hg _ ih =>
      obtain ⟨raw, hraw⟩ := ih (h.of_append hg)
      obtain ⟨b, g', rfl⟩ := List.exists_cons_of_length_eq_add_one hg
      have hb : b = 0 := by simpa using h.1 0 (by simp) rfl
      refine ⟨g' ++ raw, ?_⟩
      rw [convertByPaddingEmptyByte_append (by simpa using hg), hraw, hb]

end Padding

section FieldElements

/-- Big-endian value of a byte string. -/
def bytesToNat (bytes : List UInt8) : Nat :=
  Nat.ofDigits 256 (bytes.reverse.map UInt8.toNat)

/-- Modelled from the spec: `helpers::set_bytes_canonical` is not among the sources.
The bytes are read as a big-endian integer, reduced modulo the field order. -/
def setBytesCanonical (bytes : List UInt8) : Fr :=
  ⟨bytesToNat bytes % frModulus, Nat.mod_lt _ frModulus_pos⟩

/-- Modelled from the spec: `helpers::to_fr_array` is not among the sources.  The
bytes are cut into 32-byte groups, the last one zero-extended on the right, and
every group is read as a field element. -/
def toFrArray (data : List UInt8) : List Fr :=
  match data with
  | [] => []
  | b :: rest =>
      setBytesCanonical (b :: rest.take 31 ++ List.replicate (31 - rest.length) 0) ::
        toFrArray (rest.drop 31)
termination_by data.length

variable {g rest : List UInt8} {b : UInt8}

@[simp] theorem toFrArray_nil : toFrArray [] = [] := by
  rw [toFrArray]

/-- A last group of at most 32 bytes is zero-extended and read as one element. -/
theorem toFrArray_cons_of_length_le (h : rest.length ≤ 31) :
    toFrArray (b :: rest) =
      [setBytesCanonical (b :: rest ++ List.replicate (31 - rest.length) 0)] := by
  rw [toFrArray, List.take_of_length_le h, List.drop_eq_nil_of_le h, toFrArray_nil]

/-- A full 32-byte group is read as one element in front of the rest. -/
theorem toFrArray_cons_append (hg : g.length = 31) :
    toFrArray (b :: g ++ rest) = setBytesCanonical (b :: g) :: toFrArray rest := by
  rw [List.cons_append, toFrArray, List.take_left' hg, List.drop_left' hg,
    List.length_append, hg, Nat.sub_eq_zero_of_le (Nat.le_add_right 31 _),
    List.replicate_zero, List.append_nil]

/-- A 32-byte group in front of the rest is read as one element. -/
theorem toFrArray_append (hg : g.length = 32) :
    toFrArray (g ++ rest) = setBytesCanonical g :: toFrArray rest := by
  obtain ⟨b, g', rfl⟩ := List.exists_cons_of_length_eq_add_one hg
  exact toFrArray_cons_append (by simpa using hg)

/-- There is one field element per 32-byte group. -/
theorem length_toFrArray (data : List UInt8) :
    (toFrArray data).length = (data.length + 31) / 32 := by
  induction data using groups_induction (n := 32) (by decide) with
  | nil => simp
  | last data h0 h =>
      obtain ⟨b, rest, rfl⟩ := List.exists_cons_of_ne_nil h0
      rw [toFrArray_cons_of_length_le (by simpa using h)]
      simp only [List.length_cons, List.length_nil] at h ⊢
      omega
  | group g rest hg _ ih =>
      obtain ⟨b, g', rfl⟩ := List.exists_cons_of_length_eq_add_one hg
      rw [toFrArray_cons_append (by simpa using hg)]
      simp only [List.cons_append, List.length_cons, List.length_append, ih] at hg ⊢
      omega

/-- Element `i` of `toFrArray data` is 32-byte group `i` of `data`, the last one
zero-extended on the right, read big-endian and reduced modulo the field order. -/
theorem val_getElem?_toFrArray (data : List UInt8) (i : Nat) :
    ((toFrArray data)[i]?).map Fin.val =
      if i < (data.length + 31) / 32 then
        some (bytesToNat ((data.drop (32 * i)).take 32 ++
          List.replicate (32 - (data.length - 32 * i)) 0) % frModulus)
      else none := by
  induction data using groups_induction (n := 32) (by decide) generalizing i with
  | nil => simp
  | last data h0 h =>
      obtain ⟨b, rest, rfl⟩ := List.exists_cons_of_ne_nil h0
      rw [toFrArray_cons_of_length_le (by simpa using h)]
      rcases i with _ | j
      · have hzeros : 32 - ((b :: rest).length - 32 * 0) = 31 - rest.length := by
          rw [List.length_cons]
          omega
        rw [if_pos (by rw [List.length_cons]; omega), hzeros, Nat.mul_zero, List.drop_zero,
          List.take_of_length_le h, List.getElem?_cons_zero, Option.map_some']
        rfl
      · rw [if_neg (by simp only [List.length_cons] at h ⊢; omega)]
        rfl
  | group g rest hg hrest ih =>
      have hpos := List.length_pos.2 hrest
      rw [toFrArray_append hg, List.length_append, hg]
      rcases i with _ | j
      · rw [if_pos (by omega), Nat.mul_zero, List.drop_zero, List.take_left' hg, Nat.sub_zero,
          show 32 - (32 + rest.length) = 0 by omega, List.replicate_zero, List.append_nil,
          List.getElem?_cons_zero, Option.map_some']
        rfl
      · -- a later element: one group further into the rest
        rw [List.getElem?_cons_succ, ih j, Nat.mul_succ, Nat.add_comm (32 * j), ← List.drop_drop,
          List.drop_left' hg, show 32 + rest.length - (32 + 32 * j) = rest.length - 32 * j by omega]
        exact if_congr (by omega) rfl rfl

theorem bytesToNat_zero_cons (t : List UInt8) : bytesToNat (0 :: t) = bytesToNat t := by
  simp [bytesToNat, Nat.ofDigits_append]

theorem bytesToNat_lt (t : List UInt8) : bytesToNat t < 256 ^ t.length := by
  have hdigits : ∀ x ∈ t.reverse.map UInt8.toNat, x < 256 := by
    simpa using fun x _ => UInt8.toNat_lt_size x
  simpa [bytesToNat] using Nat.ofDigits_lt_base_pow_length (by norm_num) hdigits

theorem bytesToNat_lt_of_length_le {t : List UInt8} (ht : t.length ≤ 31) :
    bytesToNat t < 2 ^ 248 :=
  calc bytesToNat t
      < 256 ^ t.length := bytesToNat_lt t
    _ ≤ 256 ^ 31 := Nat.pow_le_pow_right (by norm_num) ht
    _ = 2 ^ 248 := by norm_num

/-- Base-256 digit strings of one length have distinct values. -/
theorem ofDigits_256_inj {l₁ l₂ : List Nat} (hlen : l₁.length = l₂.length)
    (h₁ : ∀ x ∈ l₁, x < 256) (h₂ : ∀ x ∈ l₂, x < 256)
    (h : Nat.ofDigits 256 l₁ = Nat.ofDigits 256 l₂) : l₁ = l₂ := by
  induction l₁ generalizing l₂ with
  | nil => exact (List.length_eq_zero.1 hlen.symm).symm
  | cons x xs ih =>
      obtain ⟨y, ys, rfl⟩ := List.exists_cons_of_length_eq_add_one hlen.symm
      simp only [Nat.ofDigits_cons, List.mem_cons, forall_eq_or_imp, List.length_cons]
        at h h₁ h₂ hlen
      have hdigit : x = y ∧ Nat.ofDigits 256 xs = Nat.ofDigits 256 ys := by omega
      rw [hdigit.1, ih (by omega) h₁.2 h₂.2 hdigit.2]

/-- Byte strings of one length have distinct big-endian values. -/
theorem bytesToNat_inj {t₁ t₂ : List UInt8} (hlen : t₁.length = t₂.length)
    (h : bytesToNat t₁ = bytesToNat t₂) : t₁ = t₂ := by
  have hdigits : ∀ t : List UInt8, ∀ x ∈ t.reverse.map UInt8.toNat, x < 256 := by
    intro t
    simpa using fun x _ => UInt8.toNat_lt_size x
  have hmap := ofDigits_256_inj (by simp [hlen]) (hdigits t₁) (hdigits t₂) h
  exact List.reverse_injective (List.map_injective_iff.2 (fun _ _ => UInt8.toNat.inj) hmap)

/-- Up to 32 bytes behind a zero byte read as their own value: the reduction
modulo the field order changes nothing. -/
theorem val_setBytesCanonical_zero_cons {t : List UInt8} (ht : t.length ≤ 31) :
    (setBytesCanonical (0 :: t)).val = bytesToNat t := by
  show bytesToNat (0 :: t) % frModulus = bytesToNat t
  rw [bytesToNat_zero_cons]
  exact Nat.mod_eq_of_lt ((bytesToNat_lt_of_length_le ht).trans (by decide))

theorem setBytesCanonical_zero_cons_inj {t₁ t₂ : List UInt8} (hlen : t₁.length = t₂.length)
    (ht : t₁.length ≤ 31) (h : setBytesCanonical (0 :: t₁) = setBytesCanonical (0 :: t₂)) :
    t₁ = t₂ :=
  bytesToNat_inj hlen (by
    rw [← val_setBytesCanonical_zero_cons ht, ← val_setBytesCanonical_zero_cons (hlen ▸ ht), h])

/-- Group `i` of a padded form starts with its zero byte, so its 32 bytes, the last
group zero-extended, read as less than `2 ^ 248`. -/
theorem bytesToNat_group_lt {data : List UInt8} (h : IsPaddedBytes data) {i : Nat}
    (hi : 32 * i < data.length) :
    bytesToNat ((data.drop (32 * i)).take 32 ++
      List.replicate (32 - (data.length - 32 * i)) 0) < 2 ^ 248 := by
  have h0 : data[32 * i] = 0 := by
    simpa [List.getElem?_eq_getElem hi] using h.1 (32 * i) hi (by omega)
  rw [List.drop_eq_getElem_cons hi, h0, List.take_succ_cons, List.cons_append,
    bytesToNat_zero_cons]
  apply bytesToNat_lt_of_length_le
  simp only [List.length_append, List.length_take, List.length_drop, List.length_replicate]
  omega

/-- `toFrArray` reduces no element of a padded form: element `i` is the big-endian
value of 32-byte group `i`, the last one zero-extended on the right. -/
theorem val_getElem?_toFrArray_of_isPaddedBytes {data : List UInt8} (h : IsPaddedBytes data)
    (i : Nat) :
    ((toFrArray data)[i]?).map Fin.val =
      if i < (data.length + 31) / 32 then
        some (bytesToNat ((data.drop (32 * i)).take 32 ++
          List.replicate (32 - (data.length - 32 * i)) 0))
      else none := by
  rw [val_getElem?_toFrArray]
  split_ifs with hi
  · exact congrArg some (Nat.mod_eq_of_lt ((bytesToNat_group_lt h (by omega)).trans (by decide)))
  · rfl

/-- A padded form of `n` bytes reads as `⌈n / 31⌉` field elements. -/
theorem length_toFrArray_convertByPaddingEmptyByte (data : List UInt8) :
    (toFrArray (convertByPaddingEmptyByte data)).length = (data.length + 30) / 31 := by
  rw [length_toFrArray, length_convertByPaddingEmptyByte]
  omega

/-- Every field element read from a padded form lies below `2 ^ 248`, so its
32-byte group is a valid field element and nothing is reduced. -/
theorem toFrArray_convertByPaddingEmptyByte_lt (data : List UInt8) :
    ∀ x ∈ toFrArray (convertByPaddingEmptyByte data), x.val < 2 ^ 248 := by
  induction data using groups_induction (n := 31) (by decide) with
  | nil => simp
  | last data h0 h =>
      rw [convertByPaddingEmptyByte_of_length_le h0 h, toFrArray_cons_of_length_le h]
      have hlen : (data ++ List.replicate (31 - data.length) 0).length ≤ 31 := by simp; omega
      simpa [val_setBytesCanonical_zero_cons hlen] using bytesToNat_lt_of_length_le hlen
  | group g rest hg _ ih =>
      rw [convertByPaddingEmptyByte_append hg, toFrArray_cons_append hg]
      simpa [val_setBytesCanonical_zero_cons hg.le] using ⟨bytesToNat_lt_of_length_le hg.le, ih⟩

/-- Reading padded forms as field elements loses nothing: the elements and the
data length determine the data. -/
theorem toFrArray_convertByPaddingEmptyByte_inj {data₁ data₂ : List UInt8}
    (hlen : data₁.length = data₂.length)
    (h : toFrArray (convertByPaddingEmptyByte data₁) =
      toFrArray (convertByPaddingEmptyByte data₂)) :
    data₁ = data₂ := by
  induction data₁ using groups_induction (n := 31) (by decide) generalizing data₂ with
  | nil => exact (List.length_eq_zero.1 hlen.symm).symm
  | last data h0 hle =>
      have h0' : data₂ ≠ [] := by rintro rfl; exact h0 (List.length_eq_zero.1 hlen)
      rw [convertByPaddingEmptyByte_of_length_le h0 hle,
        convertByPaddingEmptyByte_of_length_le h0' (hlen ▸ hle), toFrArray_cons_of_length_le hle,
        toFrArray_cons_of_length_le (hlen ▸ hle), hlen, List.singleton_inj] at h
      exact List.append_cancel_right
        (setBytesCanonical_zero_cons_inj (by simp [hlen]) (by simp; omega) h)
  | group g rest hg _ ih =>
      have hg₂ : (data₂.take 31).length = 31 := by simp at hlen; simp; omega
      rw [← List.take_append_drop 31 data₂] at h ⊢
      rw [convertByPaddingEmptyByte_append hg, convertByPaddingEmptyByte_append hg₂,
        toFrArray_cons_append hg, toFrArray_cons_append hg₂, List.cons.injEq] at h
      rw [setBytesCanonical_zero_cons_inj (hg.trans hg₂.symm) hg.le h.1,
        ih (by simp at hlen ⊢; omega) h.2]

end FieldElements

end KzgBn254
