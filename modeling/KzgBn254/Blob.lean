import KzgBn254.Codec

/-!
# `Blob`: a byte buffer with a padding flag

A model of `blob.rs`.  A `Blob` holds its bytes, whether they are padded, and
the length after padding.  `pad_data` and `remove_padding` take `&mut self` and
return `Result<(), BlobError>`: they are modelled as functions returning the
result together with the blob as the call leaves it, so that what a failed call
leaves behind is part of the model.  `to_polynomial` takes `&self` and returns
the polynomial or an error.

**Results.**
* `fromBytesAndPad_format`: the blob `from_bytes_and_pad` builds, and the one
  `pad_data` leaves, hold the input cut into 31-byte groups, each behind a zero
  byte, and record their own length.
* `new_padData_eq_fromBytesAndPad`: padding a fresh unpadded blob builds the same
  blob as `from_bytes_and_pad`, for every input.
-/

namespace KzgBn254

/-- Modelled from the spec: `errors.rs` is not among the sources; these are the
variants of `BlobError` that `blob.rs` raises. -/
inductive BlobError
  | alreadyPaddedError
  | notPaddedError
  | genericError (message : String)
deriving DecidableEq, Repr

/-- A blob which is Eigen DA spec aligned. -/
structure Blob where
  blobData : List UInt8
  isPadded : Bool
  lengthAfterPadding : Nat
deriving DecidableEq, Repr

namespace Blob

/-- Creates a new `Blob` from the given data. -/
def new (blobData : List UInt8) (isPadded : Bool) : Blob :=
  let lengthAfterPadding := if isPadded then blobData.length else 0
  { blobData, isPadded, lengthAfterPadding }

/-- Creates a new `Blob` from the provided bytes and pads it according to DA specs. -/
def fromBytesAndPad (input : List UInt8) : Blob :=
  let paddedInput := convertByPaddingEmptyByte input
  let lengthAfterPadding := paddedInput.length
  { blobData := paddedInput, isPadded := true, lengthAfterPadding }

/-- Returns the blob data. -/
def getBlobData (self : Blob) : List UInt8 :=
  self.blobData

/-- Returns the length of the data in the blob. -/
def len (self : Blob) : Nat :=
  self.blobData.length

/-- Pads the blob data in place if it is not already padded. -/
def padData (self : Blob) : Except BlobError Unit × Blob :=
  if self.isPadded then
    (.error .alreadyPaddedError, self)
  else
    let blobData := convertByPaddingEmptyByte self.blobData
    (.ok (), { self with blobData, isPadded := true, lengthAfterPadding := blobData.length })

/-- Removes padding from the blob data if it is padded. -/
def removePadding (self : Blob) : Except BlobError Unit × Blob :=
  if !self.isPadded then
    (.error .notPaddedError, self)
  else
    let blobData := removeEmptyByteFromPaddedBytes self.blobData
    (.ok (), { self with blobData, isPadded := false, lengthAfterPadding := 0 })

/-- Converts the blob data to a `Polynomial` if the data is padded. -/
def toPolynomial (self : Blob) : Except BlobError Polynomial :=
  if !self.isPadded then
    .error .notPaddedError
  else
    let frVec := toFrArray self.blobData
    (Polynomial.new frVec self.lengthAfterPadding).mapError
      fun err => .genericError err.toString

section Lemmas

variable {self : Blob} {data input : List UInt8} {isPadded : Bool}

@[simp] theorem new_blobData : (new data isPadded).blobData = data := rfl

@[simp] theorem new_isPadded : (new data isPadded).isPadded = isPadded := rfl

@[simp] theorem new_lengthAfterPadding :
    (new data isPadded).lengthAfterPadding = if isPadded then data.length else 0 := rfl

@[simp] theorem fromBytesAndPad_blobData :
    (fromBytesAndPad input).blobData = convertByPaddingEmptyByte input := rfl

@[simp] theorem fromBytesAndPad_isPadded : (fromBytesAndPad input).isPadded = true := rfl

@[simp] theorem fromBytesAndPad_lengthAfterPadding :
    (fromBytesAndPad input).lengthAfterPadding = (convertByPaddingEmptyByte input).length :=
  rfl

@[simp] theorem padData_of_isPadded (h : self.isPadded = true) :
    self.padData = (.error .alreadyPaddedError, self) := by
  simp [padData, h]

/-- A successful `pad_data` leaves the blob `from_bytes_and_pad` builds from the data. -/
@[simp] theorem padData_of_not_isPadded (h : self.isPadded = false) :
    self.padData = (.ok (), fromBytesAndPad self.blobData) := by
  simp [padData, h, fromBytesAndPad]

@[simp] theorem removePadding_of_not_isPadded (h : self.isPadded = false) :
    self.removePadding = (.error .notPaddedError, self) := by
  simp [removePadding, h]

/-- A successful `remove_padding` leaves a fresh unpadded blob of the unpadded bytes. -/
@[simp] theorem removePadding_of_isPadded (h : self.isPadded = true) :
    self.removePadding = (.ok (), new (removeEmptyByteFromPaddedBytes self.blobData) false) := by
  simp [removePadding, h, new]

@[simp] theorem toPolynomial_of_not_isPadded (h : self.isPadded = false) :
    self.toPolynomial = .error .notPaddedError := by
  simp [toPolynomial, h]

@[simp] theorem toPolynomial_of_isPadded (h : self.isPadded = true) :
    self.toPolynomial =
      (Polynomial.new (toFrArray self.blobData) self.lengthAfterPadding).mapError
        fun err => .genericError err.toString := by
  simp [toPolynomial, h]

end Lemmas

/-- The blob `from_bytes_and_pad` builds holds its input cut into 31-byte groups,
each behind a zero byte, is padded and records its own length; `pad_data` on an
unpadded blob of the same bytes succeeds and leaves exactly that blob. -/
theorem fromBytesAndPad_format (input : List UInt8) :
    (IsGroupPadding input (fromBytesAndPad input).blobData ∧
      (fromBytesAndPad input).blobData.length = input.length + (input.length + 30) / 31 ∧
      (fromBytesAndPad input).lengthAfterPadding = (fromBytesAndPad input).blobData.length ∧
      (fromBytesAndPad input).isPadded = true) ∧
    ∀ unpadded : Blob, unpadded.isPadded = false → unpadded.blobData = input →
      unpadded.padData = (.ok (), fromBytesAndPad input) := by
  refine ⟨⟨isGroupPadding_convertByPaddingEmptyByte input, by simp, rfl, rfl⟩, ?_⟩
  rintro unpadded hu rfl
  exact padData_of_not_isPadded hu

/-- Padding a fresh unpadded blob builds the blob `from_bytes_and_pad` builds. -/
theorem new_padData_eq_fromBytesAndPad (input : List UInt8) :
    (new input false).padData = (.ok (), fromBytesAndPad input) :=
  padData_of_not_isPadded rfl

end Blob

end KzgBn254
