import KzgBn254.Blob

/-!
# The life of a blob: calls, reachable blobs and their invariants

A caller owns its blob and changes it only through `pad_data`,
`remove_padding` and `to_polynomial`.  `Blob.call` runs one call and `Blob.run`
a sequence of them; `Reachable init` holds every blob reached by calls from a
blob that `init` allows.  `Built` holds the blobs the constructors build:
`Blob::new` with either flag, and `Blob::from_bytes_and_pad`.

Every invariant below is derived from `call_cases`, which says once what a call
can do to a blob.

**Results.**
* `reachable_lengthBookkeeping`: on every reachable blob the length after padding
  is the data length when padded and zero otherwise.
* `call_errors_exact`: which calls fail and with which error, that a failed call
  leaves the blob as it was, and that successful `pad_data` and `remove_padding`
  calls flip the flag and alternate along every sequence of calls.
* `padData_removePadding_of_reachable`: padding then unpadding a reachable
  unpadded blob succeeds twice and gives the blob back.
* `new_true_breaks_padding`: `Blob::new(data, true)` takes any bytes as padded.
* `removePadding_padData_of_wellBuilt`: from blobs whose padded bytes are padded
  forms, every reachable padded blob holds a padded form, and unpadding then
  padding gives it back.
-/

namespace KzgBn254

/-- A call a caller makes on a blob it owns. -/
inductive Call
  | padData
  | removePadding
  | toPolynomial
deriving DecidableEq, Repr

namespace Blob

/-- One call: its result, with the polynomial of `to_polynomial` dropped, and the
blob the call leaves. -/
def call (self : Blob) : Call → Except BlobError Unit × Blob
  | .padData => self.padData
  | .removePadding => self.removePadding
  | .toPolynomial => (self.toPolynomial.map fun _ => (), self)

/-- The blob a sequence of calls leaves. -/
def run (self : Blob) : List Call → Blob
  | [] => self
  | c :: cs => (self.call c).2.run cs

theorem run_append (self : Blob) (cs ds : List Call) :
    self.run (cs ++ ds) = (self.run cs).run ds := by
  induction cs generalizing self with
  | nil => rfl
  | cons c cs ih => exact ih _

/-- The `pad_data` and `remove_padding` calls of a sequence that succeed, in order. -/
def successfulMutations (self : Blob) : List Call → List Call
  | [] => []
  | c :: cs =>
      if c ≠ .toPolynomial ∧ (self.call c).1.isOk then
        c :: (self.call c).2.successfulMutations cs
      else
        (self.call c).2.successfulMutations cs

/-- The call whose success leaves a blob in its padding state. -/
def lastMutation (self : Blob) : Call :=
  if self.isPadded then .padData else .removePadding

/-- What one call can do: fail, or be `to_polynomial`, and leave the blob as it
was; pad an unpadded blob into the blob `from_bytes_and_pad` builds; or unpad a
padded blob into a fresh unpadded one. -/
theorem call_cases (self : Blob) (c : Call) :
    ((self.call c).2 = self ∧ (c = .toPolynomial ∨ (self.call c).1.isOk = false)) ∨
    (c = .padData ∧ self.isPadded = false ∧
      self.call c = (.ok (), fromBytesAndPad self.blobData)) ∨
    (c = .removePadding ∧ self.isPadded = true ∧
      self.call c = (.ok (), new (removeEmptyByteFromPaddedBytes self.blobData) false)) := by
  cases c <;> cases h : self.isPadded <;> simp [call, h, Except.isOk, Except.toBool]

/-- Whatever the blob, `pad_data` leaves it padded: a failed call found it padded. -/
@[simp] theorem isPadded_call_padData (self : Blob) : (self.call .padData).2.isPadded = true := by
  cases h : self.isPadded <;> simp [call, h]

/-- Whatever the blob, `remove_padding` leaves it unpadded. -/
@[simp] theorem isPadded_call_removePadding (self : Blob) :
    (self.call .removePadding).2.isPadded = false := by
  cases h : self.isPadded <;> simp [call, h]

@[simp] theorem call_toPolynomial_snd (self : Blob) : (self.call .toPolynomial).2 = self := rfl

/-- A blob that is not padded and records no padded length is a fresh unpadded blob. -/
theorem eq_new_of_not_isPadded {b : Blob} (hu : b.isPadded = false)
    (hl : b.lengthAfterPadding = 0) : b = new b.blobData false := by
  cases b
  simp_all [new]

/-- A padded blob recording its length and holding the padded form of `raw` is the
blob `from_bytes_and_pad` builds from `raw`. -/
theorem eq_fromBytesAndPad {b : Blob} {raw : List UInt8} (hp : b.isPadded = true)
    (hl : b.lengthAfterPadding = b.blobData.length)
    (hraw : convertByPaddingEmptyByte raw = b.blobData) : b = fromBytesAndPad raw := by
  cases b
  simp_all [fromBytesAndPad]

end Blob

open Blob

/-- The blobs the constructors build. -/
inductive Built : Blob → Prop
  | new (data : List UInt8) (isPadded : Bool) : Built (Blob.new data isPadded)
  | fromBytesAndPad (input : List UInt8) : Built (Blob.fromBytesAndPad input)

/-- The blobs reached by any sequence of calls from a blob that `init` allows. -/
inductive Reachable (init : Blob → Prop) : Blob → Prop
  | init {b : Blob} : init b → Reachable init b
  | call {b : Blob} (c : Call) : Reachable init b → Reachable init (b.call c).2

section Reachable

variable {init init' : Blob → Prop} {b : Blob}

/-- A property of the initial blobs that every call keeps holds of every
reachable blob. -/
theorem Reachable.invariant {P : Blob → Prop} (h0 : ∀ b, init b → P b)
    (hcall : ∀ b c, P b → P (b.call c).2) (hb : Reachable init b) : P b := by
  induction hb with
  | init h => exact h0 _ h
  | call c _ ih => exact hcall _ c ih

theorem Reachable.mono (h : ∀ b, init b → init' b) (hb : Reachable init b) :
    Reachable init' b :=
  hb.invariant (fun _ hi => .init (h _ hi)) fun _ c hr => .call c hr

end Reachable

section Invariants

/-- The length bookkeeping of `blob.rs`: the length after padding is the data
length of a padded blob and zero for an unpadded one. -/
def LengthBookkeeping (b : Blob) : Prop :=
  b.lengthAfterPadding = if b.isPadded then b.blobData.length else 0

instance : DecidablePred LengthBookkeeping :=
  fun _ => inferInstanceAs (Decidable (_ = _))

theorem lengthBookkeeping_of_built {b : Blob} (hb : Built b) : LengthBookkeeping b := by
  cases hb <;> rfl

/-- Every call, successful or not, keeps the length bookkeeping. -/
theorem lengthBookkeeping_call {b : Blob} (c : Call) (hb : LengthBookkeeping b) :
    LengthBookkeeping (b.call c).2 := by
  rcases call_cases b c with ⟨h, -⟩ | ⟨-, -, h⟩ | ⟨-, -, h⟩ <;> rw [h]
  exacts [hb, rfl, rfl]

theorem Reachable.lengthBookkeeping {b : Blob} (hb : Reachable Built b) :
    LengthBookkeeping b :=
  hb.invariant (fun _ => lengthBookkeeping_of_built) fun _ => lengthBookkeeping_call

theorem LengthBookkeeping.of_isPadded {b : Blob} (h : LengthBookkeeping b)
    (hp : b.isPadded = true) : b.lengthAfterPadding = b.blobData.length := by
  simpa [LengthBookkeeping, hp] using h

theorem LengthBookkeeping.of_not_isPadded {b : Blob} (h : LengthBookkeeping b)
    (hu : b.isPadded = false) : b.lengthAfterPadding = 0 := by
  simpa [LengthBookkeeping, hu] using h

/-- On every reachable blob the length after padding is the data length when the
blob is padded and zero when it is not. -/
theorem reachable_lengthBookkeeping {b : Blob} (hb : Reachable Built b) :
    (b.isPadded = true → b.lengthAfterPadding = b.blobData.length) ∧
      (b.isPadded = false → b.lengthAfterPadding = 0) :=
  ⟨hb.lengthBookkeeping.of_isPadded, hb.lengthBookkeeping.of_not_isPadded⟩

theorem reachable_lengthBookkeeping_fromBytesAndPad_removePadding :
    Reachable Built ((Blob.fromBytesAndPad [104, 105]).call .removePadding).2 ∧
      ((((Blob.fromBytesAndPad [104, 105]).call .removePadding).2.isPadded = true →
        ((Blob.fromBytesAndPad [104, 105]).call .removePadding).2.lengthAfterPadding =
          ((Blob.fromBytesAndPad [104, 105]).call .removePadding).2.blobData.length) ∧
      (((Blob.fromBytesAndPad [104, 105]).call .removePadding).2.isPadded = false →
        ((Blob.fromBytesAndPad [104, 105]).call .removePadding).2.lengthAfterPadding = 0)) :=
  ⟨.call _ (.init (.fromBytesAndPad _)),
    reachable_lengthBookkeeping (.call _ (.init (.fromBytesAndPad _)))⟩

/-- Along any sequence of calls, the successful `pad_data` and `remove_padding`
calls alternate, starting with the one the blob's padding state admits. -/
theorem successfulMutations_chain (b : Blob) (cs : List Call) :
    List.Chain (· ≠ ·) b.lastMutation (b.successfulMutations cs) ∧
      ∀ c ∈ b.successfulMutations cs, c ≠ .toPolynomial := by
  induction cs generalizing b with
  | nil => simp [successfulMutations]
  | cons c cs ih =>
      rcases call_cases b c with ⟨hsame, hc⟩ | ⟨rfl, hu, hcall⟩ | ⟨rfl, hp, hcall⟩
      · have hskip : ¬ (c ≠ .toPolynomial ∧ (b.call c).1.isOk) :=
          fun ⟨hne, hok⟩ => hc.elim hne fun h => by simp [h] at hok
        simpa only [successfulMutations, if_neg hskip, hsame] using ih b
      · -- a successful `pad_data` is recorded and leaves a padded blob
        obtain ⟨hchain, hmem⟩ := ih (fromBytesAndPad b.blobData)
        rw [successfulMutations, hcall, if_pos ⟨nofun, rfl⟩]
        exact ⟨.cons (by simp [lastMutation, hu]) hchain, List.forall_mem_cons.2 ⟨nofun, hmem⟩⟩
      · -- a successful `remove_padding` is recorded and leaves an unpadded blob
        obtain ⟨hchain, hmem⟩ := ih (new (removeEmptyByteFromPaddedBytes b.blobData) false)
        rw [successfulMutations, hcall, if_pos ⟨nofun, rfl⟩]
        exact ⟨.cons (by simp [lastMutation, hp]) hchain, List.forall_mem_cons.2 ⟨nofun, hmem⟩⟩

/-- `pad_data` fails exactly on a padded blob and succeeds exactly on an unpadded
one, `remove_padding` the other way round; `to_polynomial` fails on an unpadded
blob; a failed call leaves the blob as it was; a successful `pad_data` or
`remove_padding` flips the flag; and along any sequence of calls the successful
ones alternate. -/
theorem call_errors_exact (b : Blob) :
    (b.padData.1 = .error .alreadyPaddedError ↔ b.isPadded = true) ∧
    (b.padData.1 = .ok () ↔ b.isPadded = false) ∧
    (b.removePadding.1 = .error .notPaddedError ↔ b.isPadded = false) ∧
    (b.removePadding.1 = .ok () ↔ b.isPadded = true) ∧
    (b.isPadded = false → b.toPolynomial = .error .notPaddedError) ∧
    (∀ c e, (b.call c).1 = .error e → (b.call c).2 = b) ∧
    (∀ c, c ≠ .toPolynomial → (b.call c).1 = .ok () →
      (b.call c).2.isPadded = !b.isPadded) ∧
    ∀ cs, List.Chain (· ≠ ·) b.lastMutation (b.successfulMutations cs) ∧
      ∀ c ∈ b.successfulMutations cs, c ≠ .toPolynomial := by
  refine ⟨?_, ?_, ?_, ?_, toPolynomial_of_not_isPadded, fun c e he => ?_, fun c hc hok => ?_,
    successfulMutations_chain b⟩
  -- the outcome of `pad_data` and `remove_padding` is fixed by the flag
  iterate 4 cases h : b.isPadded <;> simp [h]
  · rcases call_cases b c with ⟨h, -⟩ | ⟨-, -, h⟩ | ⟨-, -, h⟩
    · exact h
    all_goals rw [h] at he; cases he
  · rcases call_cases b c with ⟨-, rfl | h⟩ | ⟨-, hu, h⟩ | ⟨-, hp, h⟩
    · exact absurd rfl hc
    · simp [hok, Except.isOk, Except.toBool] at h
    · simp [h, hu]
    · simp [h, hp]

/-- Padding then unpadding a reachable unpadded blob succeeds twice and gives the
blob back; in particular for a fresh unpadded blob of any bytes. -/
theorem padData_removePadding_of_reachable {b : Blob} (hb : Reachable Built b)
    (hu : b.isPadded = false) :
    (b.padData.1 = .ok () ∧ b.padData.2.removePadding.1 = .ok () ∧
      b.padData.2.removePadding.2 = b) ∧
    ∀ data, (new data false).padData.2.removePadding.2 = new data false ∧
      (new data false).padData.2.removePadding.2.blobData = data := by
  have hb' : b = new b.blobData false :=
    eq_new_of_not_isPadded hu (hb.lengthBookkeeping.of_not_isPadded hu)
  refine ⟨?_, fun data => ?_⟩
  · simp only [padData_of_not_isPadded hu, fromBytesAndPad_isPadded,
      removePadding_of_isPadded, fromBytesAndPad_blobData,
      removeEmptyByteFromPaddedBytes_convertByPaddingEmptyByte]
    exact ⟨trivial, trivial, hb'.symm⟩
  · simp [removeEmptyByteFromPaddedBytes_convertByPaddingEmptyByte]

theorem padData_removePadding_of_reachable_hi :
    Reachable Built (new [104, 105] false) ∧ (new [104, 105] false).isPadded = false ∧
      (((new [104, 105] false).padData.1 = .ok () ∧
        (new [104, 105] false).padData.2.removePadding.1 = .ok () ∧
        (new [104, 105] false).padData.2.removePadding.2 = new [104, 105] false) ∧
      ∀ data, (new data false).padData.2.removePadding.2 = new data false ∧
        (new data false).padData.2.removePadding.2.blobData = data) :=
  ⟨.init (.new _ _), rfl, padData_removePadding_of_reachable (.init (.new _ _)) rfl⟩

/-- `Blob::new(data, true)` takes any bytes as padded: `[1]` is reachable and
padded, its byte 0 is not zero, and unpadding then padding changes it. -/
theorem new_true_breaks_padding :
    Reachable Built (new [1] true) ∧ (new [1] true).isPadded = true ∧
      (new [1] true).blobData[0]? = some 1 ∧
      (new [1] true).removePadding.2.padData.2 ≠ new [1] true := by
  refine ⟨.init (.new _ _), rfl, rfl, ?_⟩
  simp [removeEmptyByteFromPaddedBytes_cons, new, fromBytesAndPad]

/-- A padded blob holds a padded form. -/
def PaddedForm (b : Blob) : Prop :=
  b.isPadded = true → IsPaddedBytes b.blobData

instance : DecidablePred PaddedForm :=
  fun _ => inferInstanceAs (Decidable (_ → _))

/-- The constructor-built blobs that satisfy `PaddedForm`: `Blob::new(data, true)`
only with `data` a padded form. -/
def WellBuilt (b : Blob) : Prop :=
  Built b ∧ PaddedForm b

/-- Every call keeps `PaddedForm`. -/
theorem paddedForm_call {b : Blob} (c : Call) (hb : PaddedForm b) :
    PaddedForm (b.call c).2 := by
  rcases call_cases b c with ⟨h, -⟩ | ⟨-, -, h⟩ | ⟨-, -, h⟩ <;> rw [h]
  · exact hb
  · exact fun _ => isPaddedBytes_convertByPaddingEmptyByte _
  · exact fun h => nomatch h

/-- From blobs whose padded bytes are padded forms, every reachable padded blob
holds the padded form of some bytes, with a zero byte at every index divisible
by 32, and unpadding then padding it succeeds twice and gives it back. -/
theorem removePadding_padData_of_wellBuilt {b : Blob} (hb : Reachable WellBuilt b)
    (hp : b.isPadded = true) :
    (∃ raw, convertByPaddingEmptyByte raw = b.blobData) ∧ IsPaddedBytes b.blobData ∧
      b.removePadding.1 = .ok () ∧ b.removePadding.2.padData.1 = .ok () ∧
      b.removePadding.2.padData.2 = b := by
  have hform : IsPaddedBytes b.blobData :=
    hb.invariant (fun _ h => h.2) (fun _ => paddedForm_call) hp
  obtain ⟨raw, hraw⟩ := (isPaddedBytes_iff _).1 hform
  have hl := (hb.mono fun _ h => h.1).lengthBookkeeping.of_isPadded hp
  refine ⟨⟨raw, hraw⟩, hform, ?_⟩
  rw [eq_fromBytesAndPad hp hl hraw]
  simp [removeEmptyByteFromPaddedBytes_convertByPaddingEmptyByte]

theorem removePadding_padData_of_wellBuilt_new :
    Reachable WellBuilt (new [0, 104, 105] true) ∧ (new [0, 104, 105] true).isPadded = true ∧
      ((∃ raw, convertByPaddingEmptyByte raw = (new [0, 104, 105] true).blobData) ∧
        IsPaddedBytes (new [0, 104, 105] true).blobData ∧
        (new [0, 104, 105] true).removePadding.1 = .ok () ∧
        (new [0, 104, 105] true).removePadding.2.padData.1 = .ok () ∧
        (new [0, 104, 105] true).removePadding.2.padData.2 = new [0, 104, 105] true) :=
  ⟨.init ⟨.new _ _, fun _ => by decide⟩, rfl,
    removePadding_padData_of_wellBuilt (.init ⟨.new _ _, fun _ => by decide⟩) rfl⟩

end Invariants

end KzgBn254
