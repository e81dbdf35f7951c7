import KzgBn254.Refinement

/-!
# Runs of calls: how calls compose, and which blobs a caller can reach

The refinement says what one call on a valid blob does.  This module says what
sequences of calls do, from valid blobs and from every blob the constructors
build, including those `Blob::new(data, true)` builds without checking `data`.

**Results.**
* `run_eq_iff_isPadded_eq`: calls leave no hidden state; from a valid blob, two
  sequences of calls leave the same blob exactly when they leave the same flag.
* `run_eq_run_last`: from a valid blob, a sequence of calls leaves what its last
  `pad_data` or `remove_padding` call alone leaves.
* `run_of_successfulMutations`: from any blob, a sequence of calls leaves the blob
  as it was until a `pad_data` or `remove_padding` succeeds, and a valid blob from
  then on.
* `reachable_built_iff`: the blobs reachable from every constructor are the valid
  blobs and the unchecked blobs of `Blob::new(data, true)`, which change only
  through a successful `remove_padding` and then are valid.
-/

namespace KzgBn254

namespace Blob

open BlobState

/-- Every sequence of calls keeps a blob valid. -/
theorem Valid.run {b : Blob} (hb : b.Valid) (cs : List Call) : (b.run cs).Valid := by
  induction cs generalizing b with
  | nil => exact hb
  | cons c cs ih => exact ih (hb.call c)

/-- From a valid blob, two sequences of calls that leave the same padding flag
leave the same blob. -/
theorem Valid.run_eq_of_isPadded_eq {b : Blob} (hb : b.Valid) {cs ds : List Call}
    (h : (b.run cs).isPadded = (b.run ds).isPadded) : b.run cs = b.run ds := by
  obtain ⟨s, rfl⟩ := hb.exists_eq_toBlob
  rw [run_toBlob, run_toBlob, isPadded_toBlob, isPadded_toBlob] at *
  -- the abstract states agree in the payload, which no call changes, and in the flag
  rw [eq_of_payload_eq_of_padded_eq (by rw [run_payload, run_payload]) h]

/-- Calls leave no hidden state: from a valid blob, two sequences of calls leave
the same blob exactly when they leave the same padding flag. -/
theorem run_eq_iff_isPadded_eq {b : Blob} (hb : b.Valid) (cs ds : List Call) :
    b.run cs = b.run ds ↔ (b.run cs).isPadded = (b.run ds).isPadded :=
  ⟨fun h => h ▸ rfl, hb.run_eq_of_isPadded_eq⟩

theorem run_eq_iff_isPadded_eq_new :
    (new [104, 105] false).Valid ∧
      (new [104, 105] false).run [.padData, .toPolynomial, .removePadding] =
        (new [104, 105] false).run [] :=
  ⟨valid_toBlob ⟨_, false⟩, (run_eq_iff_isPadded_eq (valid_toBlob ⟨_, false⟩) _ _).2 rfl⟩

/-- Whatever the blob, the padding flag a sequence of calls leaves is the one its
last `pad_data` or `remove_padding` call leaves, and the blob's own without one. -/
theorem isPadded_run_last (b : Blob) (cs : List Call) :
    (b.run cs).isPadded = (b.run (cs.filter (· ≠ .toPolynomial)).getLast?.toList).isPadded := by
  induction cs using List.reverseRecOn with
  | nil => rfl
  | append_singleton cs c ih =>
      rw [run_append, run, run]
      cases c
      case toPolynomial => simpa using ih
      all_goals simp [List.filter_append, run]

/-- Calls compose to the last one that pads or unpads: from a valid blob, a
sequence of calls leaves the blob that its last `pad_data` or `remove_padding`
call alone leaves, and the blob itself when there is none. -/
theorem run_eq_run_last {b : Blob} (hb : b.Valid) (cs : List Call) :
    b.run cs = b.run (cs.filter (· ≠ .toPolynomial)).getLast?.toList :=
  hb.run_eq_of_isPadded_eq (isPadded_run_last b cs)

theorem run_eq_run_last_hi :
    (fromBytesAndPad [104, 105]).Valid ∧
      (fromBytesAndPad [104, 105]).run [.removePadding, .toPolynomial, .padData, .toPolynomial] =
        (fromBytesAndPad [104, 105]).run
          ([.removePadding, .toPolynomial, .padData, .toPolynomial].filter
            (· ≠ .toPolynomial)).getLast?.toList :=
  ⟨valid_toBlob ⟨_, true⟩, run_eq_run_last (valid_toBlob ⟨_, true⟩) _⟩

/-- What one call adds to the successful mutations: nothing when it leaves the blob
as it was, and itself when it pads or unpads, which leaves a valid blob. -/
theorem successfulMutations_cons (b : Blob) (c : Call) (cs : List Call) :
    ((b.call c).2 = b ∧ b.successfulMutations (c :: cs) = b.successfulMutations cs) ∨
    ((b.call c).2.Valid ∧
      b.successfulMutations (c :: cs) = c :: (b.call c).2.successfulMutations cs) := by
  rcases call_cases b c with ⟨hsame, hc⟩ | ⟨rfl, -, hcall⟩ | ⟨rfl, -, hcall⟩
  · refine .inl ⟨hsame, ?_⟩
    rw [successfulMutations, if_neg fun ⟨hne, hok⟩ => hc.elim hne fun h => by simp [h] at hok,
      hsame]
  · refine .inr ⟨hcall ▸ valid_toBlob ⟨_, true⟩, ?_⟩
    rw [successfulMutations, if_pos ⟨nofun, by rw [hcall]; rfl⟩]
  · refine .inr ⟨hcall ▸ valid_toBlob ⟨_, false⟩, ?_⟩
    rw [successfulMutations, if_pos ⟨nofun, by rw [hcall]; rfl⟩]

/-- From any blob, whatever built it: a sequence of calls in which no `pad_data` or
`remove_padding` succeeds leaves the blob as it was, and once one succeeds the
blob is valid from then on. -/
theorem run_of_successfulMutations (b : Blob) (cs : List Call) :
    (b.successfulMutations cs = [] → b.run cs = b) ∧
      (b.successfulMutations cs ≠ [] → (b.run cs).Valid) := by
  induction cs generalizing b with
  | nil => exact ⟨fun _ => rfl, fun h => absurd rfl h⟩
  | cons c cs ih =>
      rcases successfulMutations_cons b c cs with ⟨hsame, hrec⟩ | ⟨hvalid, hrec⟩
      · rw [hrec, run, hsame]
        exact ih b
      · rw [hrec]
        exact ⟨nofun, fun _ => hvalid.run cs⟩

/-- An unchecked padded blob changes only through a successful `remove_padding`,
which leaves a valid blob. -/
theorem call_new_true (data : List UInt8) (c : Call) :
    ((new data true).call c).2 = new data true ∨
      (c = .removePadding ∧ ((new data true).call c).1 = .ok () ∧
        ((new data true).call c).2.Valid) := by
  rcases call_cases (new data true) c with ⟨h, -⟩ | ⟨-, hu, -⟩ | ⟨hc, -, h⟩
  · exact .inl h
  · cases hu
  · exact .inr ⟨hc, by rw [h], h ▸ valid_toBlob ⟨_, false⟩⟩

/-- The blobs reachable from every constructor are the valid blobs and the blobs
`Blob::new(data, true)` builds without checking `data`: such a blob stays as it is
under every call but a successful `remove_padding`, which leaves a valid blob. -/
theorem reachable_built_iff (b : Blob) :
    (Reachable Built b ↔ b.Valid ∨ ∃ data, b = new data true) ∧
    ∀ data c, ((new data true).call c).2 = new data true ∨
      (c = .removePadding ∧ ((new data true).call c).1 = .ok () ∧
        ((new data true).call c).2.Valid) := by
  refine ⟨⟨Reachable.invariant (P := fun b => b.Valid ∨ ∃ data, b = new data true)
    (fun b h => ?_) (fun b c h => ?_), ?_⟩, call_new_true⟩
  · cases h with
    | new data isPadded =>
        cases isPadded
        exacts [.inl (valid_toBlob ⟨data, false⟩), .inr ⟨data, rfl⟩]
    | fromBytesAndPad input => exact .inl (valid_toBlob ⟨input, true⟩)
  · rcases h with hv | ⟨data, rfl⟩
    · exact .inl (hv.call c)
    rcases call_new_true data c with h | ⟨-, -, h⟩
    exacts [.inr ⟨data, h⟩, .inl h]
  · rintro (hv | ⟨data, rfl⟩)
    · obtain ⟨⟨p, _ | _⟩, rfl⟩ := hv.exists_eq_toBlob
      exacts [.init (.new p false), .init (.fromBytesAndPad p)]
    · exact .init (.new data true)

end Blob

end KzgBn254
