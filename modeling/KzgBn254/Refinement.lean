import KzgBn254.Lifecycle

/-!
# What a blob stands for: its payload

A blob holds the bytes its caller handed over, its payload, either as they are
or padded.  The abstract model `BlobState` keeps only the payload and the padding
flag: padding and unpadding flip the flag, and `to_polynomial` fails on an
unpadded payload and on one that needs more field elements than the largest
domain holds.

`Blob.Valid` is the invariant of the blobs whose bytes came from their payload:
the length bookkeeping and the padded form.  A valid blob is the concrete blob
`BlobState.toBlob` of its abstract state, and every call on it is the abstract
call on that state (`call_toBlob`).

**Results.**
* `valid_iff_eq_toBlob`: the valid blobs are exactly the blobs of abstract states.
* `reachable_wellBuilt_iff_valid`: they are also exactly the blobs reachable from
  well-built ones.
* `call_refines` and `run_refines`: a call, and a sequence of calls, on a valid
  blob is the abstract one on its state; no call changes the payload.
* `new_valid_iff`: `Blob::new(data, true)` is valid exactly when `data` is a
  padded form, a decidable condition.
-/

namespace KzgBn254

/-- The abstract blob: its payload and whether it is held padded. -/
structure BlobState where
  payload : List UInt8
  padded : Bool
deriving DecidableEq, Repr

namespace BlobState

/-- One abstract call: its result and the state it leaves. -/
def call (s : BlobState) : Call → Except BlobError Unit × BlobState
  | .padData =>
      if s.padded then (.error .alreadyPaddedError, s) else (.ok (), { s with padded := true })
  | .removePadding =>
      if s.padded then (.ok (), { s with padded := false }) else (.error .notPaddedError, s)
  | .toPolynomial =>
      if !s.padded then (.error .notPaddedError, s)
      else if maxDomainSize < (s.payload.length + 30) / 31 then
        (.error (.genericError PolynomialError.invalidInputLength.toString), s)
      else (.ok (), s)

/-- The state a sequence of abstract calls leaves. -/
def run (s : BlobState) : List Call → BlobState
  | [] => s
  | c :: cs => (s.call c).2.run cs

/-- No abstract call changes the payload. -/
theorem call_payload (s : BlobState) (c : Call) : (s.call c).2.payload = s.payload := by
  cases c <;> simp only [call] <;> split_ifs <;> rfl

theorem run_payload (s : BlobState) (cs : List Call) : (s.run cs).payload = s.payload := by
  induction cs generalizing s with
  | nil => rfl
  | cons c cs ih => exact (ih _).trans (call_payload s c)

/-- The concrete blob of an abstract state. -/
def toBlob (s : BlobState) : Blob :=
  if s.padded then Blob.fromBytesAndPad s.payload else Blob.new s.payload false

@[simp] theorem toBlob_padded (payload : List UInt8) :
    toBlob ⟨payload, true⟩ = Blob.fromBytesAndPad payload := rfl

@[simp] theorem toBlob_unpadded (payload : List UInt8) :
    toBlob ⟨payload, false⟩ = Blob.new payload false := rfl

/-- An abstract state is its payload and its flag. -/
theorem eq_of_payload_eq_of_padded_eq {t u : BlobState} (hp : t.payload = u.payload)
    (hf : t.padded = u.padded) : t = u := by
  cases t
  cases u
  cases hp
  cases hf
  rfl

/-- The blob of an abstract state shows its padding flag. -/
@[simp] theorem isPadded_toBlob (s : BlobState) : s.toBlob.isPadded = s.padded := by
  rcases s with ⟨_, _ | _⟩ <;> rfl

end BlobState

namespace Blob

open BlobState

/-- The payload a blob stands for: its bytes, with the padding removed when padded. -/
def payload (b : Blob) : List UInt8 :=
  if b.isPadded then removeEmptyByteFromPaddedBytes b.blobData else b.blobData

/-- The abstract state of a blob. -/
def state (b : Blob) : BlobState :=
  ⟨b.payload, b.isPadded⟩

/-- The invariant of the blobs whose bytes came from their payload. -/
structure Valid (b : Blob) : Prop where
  lengthBookkeeping : LengthBookkeeping b
  paddedForm : PaddedForm b

instance : DecidablePred Valid := fun b =>
  decidable_of_iff (LengthBookkeeping b ∧ PaddedForm b)
    ⟨fun h => ⟨h.1, h.2⟩, fun h => ⟨h.1, h.2⟩⟩

theorem state_toBlob (s : BlobState) : s.toBlob.state = s := by
  rcases s with ⟨payload, _ | _⟩ <;>
    simp [state, Blob.payload, removeEmptyByteFromPaddedBytes_convertByPaddingEmptyByte]

theorem valid_toBlob (s : BlobState) : s.toBlob.Valid := by
  rcases s with ⟨payload, _ | _⟩
  · exact ⟨rfl, fun h => nomatch h⟩
  · exact ⟨rfl, fun _ => isPaddedBytes_convertByPaddingEmptyByte _⟩

theorem Valid.eq_toBlob {b : Blob} (hb : b.Valid) : b = b.state.toBlob := by
  cases hp : b.isPadded
  · simpa [state, Blob.payload, hp] using
      eq_new_of_not_isPadded hp (hb.lengthBookkeeping.of_not_isPadded hp)
  · obtain ⟨raw, hraw⟩ := (isPaddedBytes_iff _).1 (hb.paddedForm hp)
    simpa [state, Blob.payload, hp, ← hraw,
      removeEmptyByteFromPaddedBytes_convertByPaddingEmptyByte] using
      eq_fromBytesAndPad hp (hb.lengthBookkeeping.of_isPadded hp) hraw

theorem Valid.exists_eq_toBlob {b : Blob} (hb : b.Valid) : ∃ s : BlobState, b = s.toBlob :=
  ⟨_, hb.eq_toBlob⟩

/-- The valid blobs are exactly the concrete blobs of abstract states. -/
theorem valid_iff_eq_toBlob (b : Blob) : b.Valid ↔ b = b.state.toBlob :=
  ⟨Valid.eq_toBlob, fun h => by rw [h]; exact valid_toBlob _⟩

/-- One concrete call on the blob of an abstract state is the abstract call. -/
theorem call_toBlob (s : BlobState) (c : Call) :
    s.toBlob.call c = ((s.call c).1, (s.call c).2.toBlob) := by
  rcases s with ⟨payload, _ | _⟩ <;> cases c
  all_goals simp [Blob.call, BlobState.call,
    removeEmptyByteFromPaddedBytes_convertByPaddingEmptyByte]
  case mk.false.toPolynomial => rfl
  case mk.true.toPolynomial =>
    -- one field element per 31-byte group of the payload
    rw [Polynomial.new, length_toFrArray_convertByPaddingEmptyByte]
    split_ifs <;> exact ⟨rfl, rfl⟩

theorem payload_toBlob (s : BlobState) : s.toBlob.payload = s.payload :=
  congrArg BlobState.payload (state_toBlob s)

theorem payload_fromBytesAndPad (input : List UInt8) : (fromBytesAndPad input).payload = input :=
  payload_toBlob ⟨input, true⟩

theorem Valid.call {b : Blob} (hb : b.Valid) (c : Call) : (b.call c).2.Valid :=
  ⟨lengthBookkeeping_call c hb.lengthBookkeeping, paddedForm_call c hb.paddedForm⟩

/-- On a valid blob every call is the abstract call on its state, and leaves a
valid blob. -/
theorem call_refines {b : Blob} (hb : b.Valid) (c : Call) :
    (b.call c).1 = (b.state.call c).1 ∧ (b.call c).2.state = (b.state.call c).2 ∧
      (b.call c).2.Valid := by
  obtain ⟨s, rfl⟩  := hb.exists_eq_toBlob
  rw [call_toBlob, state_toBlob]
  exact ⟨rfl, state_toBlob _, valid_toBlob _⟩

theorem call_refines_hi :
    (new [104, 105] false).Valid ∧
      (((new [104, 105] false).call .padData).1 =
          ((new [104, 105] false).state.call .padData).1 ∧
        ((new [104, 105] false).call .padData).2.state =
          ((new [104, 105] false).state.call .padData).2 ∧
        ((new [104, 105] false).call .padData).2.Valid) :=
  ⟨valid_toBlob ⟨_, false⟩, call_refines (valid_toBlob ⟨_, false⟩) .padData⟩

theorem run_toBlob (s : BlobState) (cs : List Call) : s.toBlob.run cs = (s.run cs).toBlob := by
  induction cs generalizing s with
  | nil => rfl
  | cons c cs ih => simp only [Blob.run, BlobState.run, call_toBlob, ih]

/-- Along any sequence of calls from a valid blob, the blob follows the abstract
run: it stays valid and its payload never changes. -/
theorem run_refines {b : Blob} (hb : b.Valid) (cs : List Call) :
    (b.run cs).state = b.state.run cs ∧ (b.run cs).Valid ∧ (b.run cs).payload = b.payload := by
  obtain ⟨s, rfl⟩  := hb.exists_eq_toBlob
  rw [run_toBlob]
  exact ⟨by rw [state_toBlob, state_toBlob], valid_toBlob _,
    by rw [payload_toBlob, payload_toBlob, run_payload]⟩

theorem run_refines_hi :
    (fromBytesAndPad [104, 105]).Valid ∧
      (((fromBytesAndPad [104, 105]).run [.removePadding, .toPolynomial, .padData]).state =
          (fromBytesAndPad [104, 105]).state.run [.removePadding, .toPolynomial, .padData] ∧
        ((fromBytesAndPad [104, 105]).run [.removePadding, .toPolynomial, .padData]).Valid ∧
        ((fromBytesAndPad [104, 105]).run [.removePadding, .toPolynomial, .padData]).payload =
          (fromBytesAndPad [104, 105]).payload) :=
  ⟨valid_toBlob ⟨_, true⟩, run_refines (valid_toBlob ⟨_, true⟩) _⟩

/-- The valid blobs are exactly the blobs reachable from well-built ones. -/
theorem reachable_wellBuilt_iff_valid (b : Blob) : Reachable WellBuilt b ↔ b.Valid := by
  refine ⟨fun hb => hb.invariant (fun _ h => ⟨lengthBookkeeping_of_built h.1, h.2⟩)
    fun _ c h => h.call c, fun hb => ?_⟩
  obtain ⟨⟨p, _ | _⟩, rfl⟩  := hb.exists_eq_toBlob
  · exact .init ⟨.new p false, (valid_toBlob _).paddedForm⟩
  · exact .init ⟨.fromBytesAndPad p, (valid_toBlob _).paddedForm⟩

/-- `Blob::new(data, true)` is valid exactly when `data` is a padded form, that is
exactly when it is the blob `from_bytes_and_pad` builds from some bytes. -/
theorem new_valid_iff (data : List UInt8) :
    ((new data true).Valid ↔ IsPaddedBytes data) ∧
      (IsPaddedBytes data ↔ ∃ raw, new data true = fromBytesAndPad raw) := by
  refine ⟨⟨fun h => h.paddedForm rfl, fun h => ⟨rfl, fun _ => h⟩⟩, ?_⟩
  rw [isPaddedBytes_iff]
  refine ⟨fun ⟨raw, hraw⟩ => ⟨raw, eq_fromBytesAndPad rfl rfl hraw⟩, fun ⟨raw, h⟩ => ⟨raw, ?_⟩⟩
  simpa using (congrArg Blob.blobData h).symm

example : (new [0, 104, 105] true).Valid ∧ ¬ (new [1] true).Valid := by
  decide

end Blob

end KzgBn254
