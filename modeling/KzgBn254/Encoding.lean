import KzgBn254.Refinement
import KzgBn254.FieldCodec
import KzgBn254.Domain

/-!
# What `to_polynomial` builds

`Blob::to_polynomial` reads the padded bytes as field elements and hands them to
`Polynomial::new`, which zero-extends them to a power-of-two domain and records
the blob's length after padding.  This module says what that polynomial is on
every blob, and that on a valid blob it is an encoding of the payload that the
spec's `FieldCodec.decode` reverses.

**Results.**
* `toPolynomial_domain`: on every blob, when `to_polynomial` fails with the
  polynomial error's text, and that its polynomial starts with the elements of the
  32-byte groups, over the least power-of-two domain holding them, whose size
  divides `frModulus - 1` and is the order of a primitive root of unity modulo
  `frModulus`, zero behind the elements; on a reachable blob it records the byte
  length.
* `toPolynomial_of_valid`: on a valid padded blob, `to_polynomial` succeeds exactly
  when the payload's field elements fit the largest domain, and every element is
  its 32-byte group read big-endian, unreduced, below `2 ^ 248`.
* `toPolynomial_injective`: two valid blobs with the same polynomial are equal.
* `toPolynomial_elements`: element by element, the polynomial of a valid blob is
  the payload cut into 31-byte chunks read big-endian, then zeros up to the least
  power of two.
* `decode_toPolynomial`: decoding the polynomial of a valid blob, with the data
  length its recorded length stands for, gives the payload back.
-/

namespace KzgBn254

namespace Blob

open BlobState

theorem mapError_eq_ok {ε ε' α : Type} {f : ε → ε'} {x : Except ε α} {a : α} :
    x.mapError f = .ok a ↔ x = .ok a := by
  cases x <;> simp [Except.mapError]

/-- On a valid padded blob of payload `p`, `to_polynomial` succeeds exactly when
`⌈|p| / 31⌉` field elements fit the largest domain; the polynomial then starts
with those elements, over a power-of-two domain, and records the padded length.
Element `i` is the big-endian value of 32-byte group `i` of the padded bytes, the
last group zero-extended: the leading zero byte of every group keeps it below
`2 ^ 248`, so the modulus reduces none of them. -/
theorem toPolynomial_of_valid {b : Blob} (hb : b.Valid) (hp : b.isPadded = true) :
    ((∃ poly, b.toPolynomial = .ok poly) ↔ (b.payload.length + 30) / 31 ≤ maxDomainSize) ∧
    ∀ poly, b.toPolynomial = .ok poly →
      toFrArray b.blobData <+: poly.elements ∧
      (toFrArray b.blobData).length = (b.payload.length + 30) / 31 ∧
      (∀ i, ((toFrArray b.blobData)[i]?).map Fin.val =
        if i < (b.blobData.length + 31) / 32 then
          some (bytesToNat ((b.blobData.drop (32 * i)).take 32 ++
            List.replicate (32 - (b.blobData.length - 32 * i)) 0))
        else none) ∧
      (∀ x ∈ toFrArray b.blobData, x.val < 2 ^ 248) ∧
      poly.elements.length.isPowerOfTwo ∧ poly.lengthOfPaddedBlob = b.blobData.length := by
  obtain ⟨⟨p, _ | _⟩, rfl⟩  := hb.exists_eq_toBlob
  · cases hp
  simp only [toBlob_padded, toPolynomial_of_isPadded, fromBytesAndPad_isPadded,
    fromBytesAndPad_blobData, fromBytesAndPad_lengthAfterPadding, mapError_eq_ok,
    payload_fromBytesAndPad]
  refine ⟨?_, fun poly hpoly => ?_⟩
  · rw [Polynomial.new_isOk_iff, length_toFrArray_convertByPaddingEmptyByte]
  · obtain ⟨hpre, hlen, hpow⟩ := Polynomial.new_spec hpoly
    exact ⟨hpre, length_toFrArray_convertByPaddingEmptyByte p,
      val_getElem?_toFrArray_of_isPaddedBytes (isPaddedBytes_convertByPaddingEmptyByte p),
      toFrArray_convertByPaddingEmptyByte_lt p, hpow, hlen⟩

theorem toPolynomial_of_valid_hi :
    (fromBytesAndPad [104, 105]).Valid ∧ (fromBytesAndPad [104, 105]).isPadded = true ∧
      (((∃ poly, (fromBytesAndPad [104, 105]).toPolynomial = .ok poly) ↔
          ((fromBytesAndPad [104, 105]).payload.length + 30) / 31 ≤ maxDomainSize) ∧
        ∀ poly, (fromBytesAndPad [104, 105]).toPolynomial = .ok poly →
          toFrArray (fromBytesAndPad [104, 105]).blobData <+: poly.elements ∧
          (toFrArray (fromBytesAndPad [104, 105]).blobData).length =
            ((fromBytesAndPad [104, 105]).payload.length + 30) / 31 ∧
          (∀ i, ((toFrArray (fromBytesAndPad [104, 105]).blobData)[i]?).map Fin.val =
            if i < ((fromBytesAndPad [104, 105]).blobData.length + 31) / 32 then
              some (bytesToNat (((fromBytesAndPad [104, 105]).blobData.drop (32 * i)).take 32 ++
                List.replicate (32 - ((fromBytesAndPad [104, 105]).blobData.length - 32 * i)) 0))
            else none) ∧
          (∀ x ∈ toFrArray (fromBytesAndPad [104, 105]).blobData, x.val < 2 ^ 248) ∧
          poly.elements.length.isPowerOfTwo ∧
          poly.lengthOfPaddedBlob = (fromBytesAndPad [104, 105]).blobData.length) :=
  ⟨valid_toBlob ⟨_, true⟩, rfl, toPolynomial_of_valid (valid_toBlob ⟨_, true⟩) rfl⟩

/-- Two valid blobs that `to_polynomial` turns into the same polynomial are equal:
the padded encoding loses nothing. -/
theorem toPolynomial_injective {b₁ b₂ : Blob} {poly : Polynomial} (h₁ : b₁.Valid)
    (h₂ : b₂.Valid) (hp₁ : b₁.toPolynomial = .ok poly) (hp₂ : b₂.toPolynomial = .ok poly) :
    b₁ = b₂ := by
  obtain ⟨⟨p₁, _ | _⟩, rfl⟩ := h₁.exists_eq_toBlob
  · simp at hp₁
  obtain ⟨⟨p₂, _ | _⟩, rfl⟩ := h₂.exists_eq_toBlob
  · simp at hp₂
  simp only [toBlob_padded, toPolynomial_of_isPadded, fromBytesAndPad_isPadded,
    fromBytesAndPad_blobData, fromBytesAndPad_lengthAfterPadding, mapError_eq_ok] at hp₁ hp₂
  obtain ⟨hpre₁, hlen₁, -⟩ := Polynomial.new_spec hp₁
  obtain ⟨hpre₂, hlen₂, -⟩ := Polynomial.new_spec hp₂
  have hlen : p₁.length = p₂.length := by
    rw [hlen₁, length_convertByPaddingEmptyByte, length_convertByPaddingEmptyByte] at hlen₂
    omega
  -- both element lists are the first `⌈n / 31⌉` elements of the polynomial
  have helems : toFrArray (convertByPaddingEmptyByte p₁) =
      toFrArray (convertByPaddingEmptyByte p₂) := by
    rw [List.prefix_iff_eq_take.1 hpre₁, List.prefix_iff_eq_take.1 hpre₂,
      length_toFrArray_convertByPaddingEmptyByte, length_toFrArray_convertByPaddingEmptyByte,
      hlen]
  rw [toBlob_padded, toBlob_padded, toFrArray_convertByPaddingEmptyByte_inj hlen helems]

/-- The polynomial of the padded blob of `"hi"`: one element, no zero extension. -/
theorem toPolynomial_new_hi :
    (new [0, 104, 105] true).toPolynomial = .ok ⟨toFrArray [0, 104, 105], 3⟩ := by
  have hpow : Nat.nextPowerOfTwo 1 = 1 := by
    rw [Nat.nextPowerOfTwo, Nat.nextPowerOfTwo.go, if_neg (by decide)]
  simp [Polynomial.new, length_toFrArray, hpow, maxDomainSize, Except.mapError]

theorem fromBytesAndPad_hi : fromBytesAndPad [104, 105] = new [0, 104, 105] true :=
  eq_fromBytesAndPad (b := new [0, 104, 105] true) rfl rfl
    (convertByPaddingEmptyByte_of_length_le (by simp) (by simp)) |>.symm

theorem toPolynomial_injective_new :
    (fromBytesAndPad [104, 105]).Valid ∧ (new [0, 104, 105] true).Valid ∧
      (fromBytesAndPad [104, 105]).toPolynomial = .ok ⟨toFrArray [0, 104, 105], 3⟩ ∧
      (new [0, 104, 105] true).toPolynomial = .ok ⟨toFrArray [0, 104, 105], 3⟩ ∧
      fromBytesAndPad [104, 105] = new [0, 104, 105] true := by
  have hv₁ : (fromBytesAndPad [104, 105]).Valid := valid_toBlob ⟨_, true⟩
  have hv₂ : (new [0, 104, 105] true).Valid := ⟨rfl, fun _ => by decide⟩
  have hp₁ := fromBytesAndPad_hi ▸ toPolynomial_new_hi
  exact ⟨hv₁, hv₂, hp₁, toPolynomial_new_hi,
    toPolynomial_injective hv₁ hv₂ hp₁ toPolynomial_new_hi⟩

/-- On the blob `from_bytes_and_pad` builds, `to_polynomial` reads the spec's
encoding of the input. -/
theorem toPolynomial_fromBytesAndPad (input : List UInt8) :
    (fromBytesAndPad input).toPolynomial =
      (Polynomial.new (FieldCodec.encode input) (convertByPaddingEmptyByte input).length).mapError
        fun err => .genericError err.toString :=
  toPolynomial_of_isPadded rfl

/-- The polynomial `to_polynomial` builds from a valid blob gives the payload back:
decoding its elements, the zero extension to the domain included, with the data
length its recorded padded length stands for. -/
theorem decode_toPolynomial {b : Blob} {poly : Polynomial} (hb : b.Valid)
    (h : b.toPolynomial = .ok poly) :
    FieldCodec.decode poly.elements (FieldCodec.unpaddedLength poly.lengthOfPaddedBlob) =
      .ok b.payload := by
  obtain ⟨⟨p, _ | _⟩, rfl⟩ := hb.exists_eq_toBlob
  · simp at h
  rw [BlobState.toBlob_padded, toPolynomial_fromBytesAndPad, mapError_eq_ok] at h
  obtain ⟨⟨extra, hextra⟩, hlen, -⟩ := Polynomial.new_spec h
  rw [← hextra, hlen, FieldCodec.unpaddedLength_length_convertByPaddingEmptyByte,
    BlobState.toBlob_padded, payload_fromBytesAndPad]
  exact FieldCodec.decode_encode p extra

/-- The format of what `to_polynomial` builds from a valid blob of payload `p`: its
domain is the least power of two holding `⌈|p| / 31⌉` elements; element `i` is
payload bytes `31 i` to `31 i + 30` as one big-endian integer, the last chunk
zero-padded on the right, for `i < ⌈|p| / 31⌉`; the elements from there up to the
domain size are zero. -/
theorem toPolynomial_elements {b : Blob} {poly : Polynomial} (hb : b.Valid)
    (h : b.toPolynomial = .ok poly) :
    poly.elements.length = ((b.payload.length + 30) / 31).nextPowerOfTwo ∧
    ∀ i, (poly.elements[i]?).map Fin.val =
      if i < (b.payload.length + 30) / 31 then
        some (bytesToNat ((b.payload.drop (31 * i)).take 31 ++
          List.replicate (31 - (b.payload.length - 31 * i)) 0))
      else if i < poly.elements.length then some 0 else none := by
  obtain ⟨⟨p, _ | _⟩, rfl⟩ := hb.exists_eq_toBlob
  · simp at h
  rw [toBlob_padded, toPolynomial_fromBytesAndPad, mapError_eq_ok] at h
  rw [toBlob_padded, payload_fromBytesAndPad]
  obtain ⟨⟨extra, hextra⟩, -, -⟩ := Polynomial.new_spec h
  obtain ⟨hdom, -, -, hzero⟩ := Polynomial.new_domain h
  rw [FieldCodec.length_encode] at hdom
  refine ⟨hdom, fun i => ?_⟩
  rw [← hextra, List.drop_left] at hzero
  rw [← hextra, List.length_append, FieldCodec.length_encode]
  by_cases hi : i < (p.length + 30) / 31
  · rw [List.getElem?_append_left (by rw [FieldCodec.length_encode]; exact hi),
      FieldCodec.val_getElem?_encode, if_pos hi, if_pos hi]
  -- behind the encoding: the zero extension, then nothing
  rw [List.getElem?_append_right (by rw [FieldCodec.length_encode]; omega),
    FieldCodec.length_encode, if_neg hi]
  split_ifs with hlt
  · rw [List.getElem?_eq_getElem (by omega), Option.map_some']
    exact congrArg some (hzero _ (List.getElem_mem ..))
  · rw [List.getElem?_eq_none (by omega)]
    rfl

theorem toPolynomial_elements_hi :
    (new [0, 104, 105] true).Valid ∧
      (new [0, 104, 105] true).toPolynomial = .ok ⟨toFrArray [0, 104, 105], 3⟩ ∧
      (toFrArray [0, 104, 105]).length =
        (((new [0, 104, 105] true).payload.length + 30) / 31).nextPowerOfTwo ∧
      ((toFrArray [0, 104, 105])[0]?).map Fin.val =
        if 0 < ((new [0, 104, 105] true).payload.length + 30) / 31 then
          some (bytesToNat (((new [0, 104, 105] true).payload.drop (31 * 0)).take 31 ++
            List.replicate (31 - ((new [0, 104, 105] true).payload.length - 31 * 0)) 0))
        else if 0 < (toFrArray [0, 104, 105]).length then some 0 else none := by
  have hv : (new [0, 104, 105] true).Valid := ⟨rfl, fun _ => by decide⟩
  have h := toPolynomial_elements hv toPolynomial_new_hi
  exact ⟨hv, toPolynomial_new_hi, h.1, h.2 0⟩

theorem decode_toPolynomial_hi :
    (new [0, 104, 105] true).Valid ∧
      (new [0, 104, 105] true).toPolynomial = .ok ⟨toFrArray [0, 104, 105], 3⟩ ∧
      FieldCodec.decode (toFrArray [0, 104, 105]) (FieldCodec.unpaddedLength 3) =
        .ok (new [0, 104, 105] true).payload := by
  have hv : (new [0, 104, 105] true).Valid := ⟨rfl, fun _ => by decide⟩
  exact ⟨hv, toPolynomial_new_hi, decode_toPolynomial hv toPolynomial_new_hi⟩

end Blob

end KzgBn254
