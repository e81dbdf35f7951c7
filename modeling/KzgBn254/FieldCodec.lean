import KzgBn254.Codec

/-!
# The field-element codec: bytes to field elements and back

`Blob::to_polynomial` hands `helpers::to_fr_array` of the padded bytes to the
polynomial.  The way back, from field elements to bytes, is not among the
sources; this module models it from the spec's `FieldCodec`:

* a field element is serialized as its canonical representative in 32
  big-endian bytes (`toBytesCanonical`);
* `FieldCodec.encode` pads the bytes and reads them as field elements, which is
  what `to_polynomial` does with the bytes of `from_bytes_and_pad`;
* `FieldCodec.decode` strips the leading byte of every element's serialization,
  joins the rest and keeps the original length, failing when that length exceeds
  the 31 bytes per element the elements hold.

**Results.**
* `toBytesCanonical_setBytesCanonical`: serializing what a 32-byte string below the
  modulus reads as gives the string back.
* `val_getElem?_encode`: element `i` of the encoding is input chunk `i` of 31 bytes
  read big-endian, unreduced.
* `dataBytes_encode`: the bytes behind the leading bytes of the encoded elements
  are the input, zero-extended to a multiple of 31.
* `decode_encode`: decoding the encoding with the input's length gives the input
  back, for every byte sequence; extra elements behind the encoding change nothing.
-/

namespace KzgBn254

section Serialization

/-- The `w` low bytes of `n`, least significant first. -/
def natToBytesLE : Nat → Nat → List UInt8
  | 0, _ => []
  | w + 1, n => UInt8.ofNat (n % 256) :: natToBytesLE w (n / 256)

/-- Modelled from the spec: a field element is serialized as its canonical
representative in 32 big-endian bytes. -/
def toBytesCanonical (x : Fr) : List UInt8 :=
  (natToBytesLE 32 x.val).reverse

variable {w n : Nat} {l : List UInt8}

@[simp] theorem length_natToBytesLE : (natToBytesLE w n).length = w := by
  induction w generalizing n with
  | zero => rfl
  | succ w ih => simp [natToBytesLE, ih]

theorem ofDigits_natToBytesLE :
    Nat.ofDigits 256 ((natToBytesLE w n).map UInt8.toNat) = n % 256 ^ w := by
  induction w generalizing n with
  | zero => simp [natToBytesLE, Nat.mod_one]
  | succ w ih =>
      show n % 256 % 256 + 256 * Nat.ofDigits 256 ((natToBytesLE w (n / 256)).map UInt8.toNat) =
        n % 256 ^ (w + 1)
      rw [ih, Nat.mod_mod, pow_succ', Nat.mod_mul]

theorem uint8_ofNat_toNat (b : UInt8) : UInt8.ofNat b.toNat = b :=
  UInt8.toNat.inj (Nat.mod_eq_of_lt (UInt8.toNat_lt_size b))

theorem natToBytesLE_ofDigits (l : List UInt8) :
    natToBytesLE l.length (Nat.ofDigits 256 (l.map UInt8.toNat)) = l := by
  induction l with
  | nil => rfl
  | cons b l ih =>
      have hb := UInt8.toNat_lt_size b
      simp only [List.length_cons, List.map_cons, Nat.ofDigits_cons, natToBytesLE]
      rw [Nat.add_mul_mod_self_left, Nat.mod_eq_of_lt hb, uint8_ofNat_toNat,
        Nat.add_mul_div_left _ _ (by norm_num), Nat.div_eq_of_lt hb, Nat.zero_add, ih]

@[simp] theorem length_toBytesCanonical (x : Fr) : (toBytesCanonical x).length = 32 := by
  simp [toBytesCanonical]

/-- Serializing what 32 bytes below the modulus read as gives the bytes back. -/
theorem toBytesCanonical_setBytesCanonical (hl : l.length = 32)
    (h : bytesToNat l < frModulus) : toBytesCanonical (setBytesCanonical l) = l := by
  have hval : (setBytesCanonical l).val = bytesToNat l := Nat.mod_eq_of_lt h
  rw [toBytesCanonical, hval, ← hl, ← List.length_reverse, bytesToNat,
    natToBytesLE_ofDigits, List.reverse_reverse]

/-- A zero byte in front of 31 bytes is the serialization of what they read as. -/
theorem toBytesCanonical_setBytesCanonical_zero_cons {t : List UInt8} (ht : t.length = 31) :
    toBytesCanonical (setBytesCanonical (0 :: t)) = 0 :: t :=
  toBytesCanonical_setBytesCanonical (by simp [ht]) (by
    rw [bytesToNat_zero_cons]
    exact (bytesToNat_lt_of_length_le ht.le).trans (by decide))

end Serialization

namespace FieldCodec

/-- Modelled from the spec: `encode` cuts the bytes into 31-byte chunks, puts a
zero byte in front of each, zero-pads the last chunk on the right and reads every
32-byte chunk as a field element. -/
def encode (bytes : List UInt8) : List Fr :=
  toFrArray (convertByPaddingEmptyByte bytes)

/-- Modelled from the spec: the failure of `decode`. -/
inductive DecodeError
  | decodeError
deriving DecidableEq, Repr

/-- The bytes behind the leading byte of every element's serialization, in order. -/
def dataBytes (elements : List Fr) : List UInt8 :=
  elements.flatMap fun x => (toBytesCanonical x).tail

/-- Modelled from the spec: `decode` strips the leading padding byte of every
element and truncates the concatenation to `originalLength`; it fails when
`originalLength` exceeds the decodable capacity. -/
def decode (elements : List Fr) (originalLength : Nat) : Except DecodeError (List UInt8) :=
  if 31 * elements.length < originalLength then
    .error .decodeError
  else
    .ok ((dataBytes elements).take originalLength)

variable {xs ys : List Fr} {n : Nat}

@[simp] theorem dataBytes_nil : dataBytes [] = [] := rfl

@[simp] theorem dataBytes_cons (x : Fr) (xs : List Fr) :
    dataBytes (x :: xs) = (toBytesCanonical x).tail ++ dataBytes xs := rfl

theorem dataBytes_append : dataBytes (xs ++ ys) = dataBytes xs ++ dataBytes ys :=
  List.flatMap_append xs ys _

/-- Every element holds 31 data bytes. -/
@[simp] theorem length_dataBytes (xs : List Fr) : (dataBytes xs).length = 31 * xs.length := by
  induction xs with
  | nil => rfl
  | cons x xs ih =>
      simp only [dataBytes_cons, List.length_append, List.length_tail, length_toBytesCanonical,
        ih, List.length_cons]
      omega

/-- `decode` fails exactly when the elements hold fewer bytes than asked for. -/
theorem decode_eq_error_iff : decode xs n = .error .decodeError ↔ 31 * xs.length < n := by
  unfold decode
  split <;> simp_all

theorem decode_of_le (h : n ≤ 31 * xs.length) : decode xs n = .ok ((dataBytes xs).take n) := by
  rw [decode, if_neg (by omega)]

/-- Elements behind the first ones change nothing when their bytes are not asked for. -/
theorem decode_append_of_le (h : n ≤ 31 * xs.length) : decode (xs ++ ys) n = decode xs n := by
  rw [decode_of_le h, decode_of_le (by simp; omega), dataBytes_append,
    List.take_append_of_le_length (by simpa using h)]

/-- The data bytes of the encoding are the input zero-extended to a multiple of 31. -/
theorem dataBytes_encode (bytes : List UInt8) :
    dataBytes (encode bytes) =
      bytes ++ List.replicate ((31 - bytes.length % 31) % 31) 0 := by
  unfold encode
  induction bytes using groups_induction (n := 31) (by decide) with
  | nil => simp
  | last data h0 h =>
      have hpad : (data ++ List.replicate (31 - data.length) 0).length = 31 := by
        rw [List.length_append, List.length_replicate]
        omega
      have hzeros : (31 - data.length % 31) % 31 = 31 - data.length := by
        have := List.length_pos.2 h0
        omega
      rw [convertByPaddingEmptyByte_of_length_le h0 h, toFrArray_cons_of_length_le h,
        dataBytes_cons, List.cons_append, toBytesCanonical_setBytesCanonical_zero_cons hpad,
        hzeros]
      simp
  | group g rest hg _ ih =>
      rw [convertByPaddingEmptyByte_append hg, toFrArray_cons_append hg, dataBytes_cons,
        toBytesCanonical_setBytesCanonical_zero_cons hg, List.tail_cons, ih,
        List.length_append, hg, Nat.add_mod_left, List.append_assoc]

/-- The encoding of `n` bytes has `⌈n / 31⌉` elements. -/
theorem length_encode (bytes : List UInt8) : (encode bytes).length = (bytes.length + 30) / 31 :=
  length_toFrArray_convertByPaddingEmptyByte bytes

/-- Element `i` of the encoding is input bytes `31 i` to `31 i + 30` as one big-endian
integer, the last chunk zero-padded on the right: the leading zero byte keeps every
element below the modulus, so none is reduced. -/
theorem val_getElem?_encode (bytes : List UInt8) (i : Nat) :
    ((encode bytes)[i]?).map Fin.val =
      if i < (bytes.length + 30) / 31 then
        some (bytesToNat ((bytes.drop (31 * i)).take 31 ++
          List.replicate (31 - (bytes.length - 31 * i)) 0))
      else none := by
  unfold encode
  induction bytes using groups_induction (n := 31) (by decide) generalizing i with
  | nil => simp
  | last data h0 h =>
      have hpos := List.length_pos.2 h0
      rw [convertByPaddingEmptyByte_of_length_le h0 h, toFrArray_cons_of_length_le h,
        List.cons_append]
      rcases i with _ | j
      · have hlen : (data ++ List.replicate (31 - data.length) 0).length ≤ 31 := by
          rw [List.length_append, List.length_replicate]
          omega
        rw [if_pos (by omega), List.getElem?_cons_zero, Option.map_some',
          val_setBytesCanonical_zero_cons hlen, Nat.mul_zero, List.drop_zero,
          List.take_of_length_le h, Nat.sub_zero]
      · rw [if_neg (by omega)]
        rfl
  | group g rest hg hrest ih =>
      have hpos := List.length_pos.2 hrest
      rw [convertByPaddingEmptyByte_append hg, toFrArray_cons_append hg]
      rcases i with _ | j
      · rw [if_pos (by rw [List.length_append]; omega), List.getElem?_cons_zero, Option.map_some',
          val_setBytesCanonical_zero_cons hg.le, Nat.mul_zero, List.drop_zero,
          List.take_left' hg, List.length_append, hg, Nat.sub_zero,
          show 31 - (31 + rest.length) = 0 by omega, List.replicate_zero, List.append_nil]
      · -- a later element: one chunk further into the rest
        rw [List.getElem?_cons_succ, ih j, Nat.mul_succ, Nat.add_comm (31 * j), ← hg,
          List.drop_append, List.length_append, hg]
        congr 1
        · simp only [eq_iff_iff]
          omega
        · congr 4
          omega

/-- Decoding the encoding of any bytes with their length gives them back, also with
further elements behind the encoding. -/
theorem decode_encode (bytes : List UInt8) (extra : List Fr) :
    decode (encode bytes ++ extra) bytes.length = .ok bytes := by
  have hcap : bytes.length ≤ 31 * (encode bytes).length := by rw [length_encode]; omega
  rw [decode_append_of_le hcap, decode_of_le hcap, dataBytes_encode, List.take_left]

/-- The number of data bytes in a padded form of `n` bytes: all but the leading
byte of every 32-byte group. -/
def unpaddedLength (n : Nat) : Nat :=
  n - (n + 31) / 32

/-- The padded length determines the data length. -/
theorem unpaddedLength_length_convertByPaddingEmptyByte (data : List UInt8) :
    unpaddedLength (convertByPaddingEmptyByte data).length = data.length := by
  rw [unpaddedLength, length_convertByPaddingEmptyByte]
  omega

end FieldCodec

end KzgBn254
