import Mathlib.Data.List.Basic

/-!
# The scalar field and the `Polynomial` constructor

`Blob::to_polynomial` reads the padded blob as field elements of the BN254 scalar
field and hands them to `Polynomial::new`.  The polynomial module is not among
the sources; this module models the part of it the blob layer reaches:

* `Fr`, the scalar field, by canonical representatives below `frModulus`;
* `Polynomial`, the element list together with the padded blob length;
* `Polynomial.new`, which fails with `InvalidInputLength` when the element count
  exceeds the largest evaluation domain and otherwise zero-extends the elements
  to a power-of-two domain.

The largest domain is the 2-part of `frModulus - 1` (`maxDomainSize_two_adicity`).
A radix-2 transform over `Fr` needs a primitive root of unity of the domain's size;
`KzgBn254.Domain` exhibits one for every domain `Polynomial.new` builds.
-/

namespace KzgBn254

/-- Order of the BN254 scalar field. -/
def frModulus : Nat :=
  21888242871839275222246405745257275088548364400416034343698204186575808495617

theorem frModulus_pos : 0 < frModulus := by
  decide

/-- An element of the scalar field, by its canonical representative. -/
abbrev Fr := Fin frModulus

/-- Size of the largest power-of-two evaluation domain of roots of unity in `Fr`,
`2 ^ 28`. -/
def maxDomainSize : Nat := 268435456

/-- `maxDomainSize` is the largest power of two dividing `frModulus - 1`. -/
theorem maxDomainSize_two_adicity :
    maxDomainSize ∣ frModulus - 1 ∧ ¬ 2 * maxDomainSize ∣ frModulus - 1 := by
  decide

/-- The search behind `Nat.nextPowerOfTwo` never returns less than its bound. -/
theorem le_nextPowerOfTwo_go (n power : Nat) (h : power > 0) :
    n ≤ Nat.nextPowerOfTwo.go n power h := by
  induction power, h using Nat.nextPowerOfTwo.go.induct n with
  | case1 power h hlt ih =>
      rw [Nat.nextPowerOfTwo.go, if_pos hlt]
      exact ih
  | case2 power h hlt =>
      rw [Nat.nextPowerOfTwo.go, if_neg hlt]
      omega

theorem le_nextPowerOfTwo (n : Nat) : n ≤ n.nextPowerOfTwo :=
  le_nextPowerOfTwo_go n 1 _

/-- Modelled from the spec: the errors of the polynomial module are not among the
sources; the spec names one, for an element count beyond the largest domain. -/
inductive PolynomialError
  | invalidInputLength
deriving DecidableEq, Repr

/-- Modelled from the spec: the `Display` text of a `PolynomialError`, which is
not among the sources, is taken to be the error's name. -/
def PolynomialError.toString : PolynomialError → String
  | .invalidInputLength => "InvalidInputLength"

/-- Modelled from the spec: a polynomial (`polynomial.rs`, not among the sources)
holds its elements over a power-of-two domain and the length of the padded blob
it was built from. -/
structure Polynomial where
  elements : List Fr
  lengthOfPaddedBlob : Nat
deriving DecidableEq, Repr

/-- Modelled from the spec: `Polynomial::new` (not among the sources) rejects more
elements than the largest domain holds and zero-extends the rest to the next
power of two. -/
def Polynomial.new (elements : List Fr) (lengthOfPaddedBlob : Nat) :
    Except PolynomialError Polynomial :=
  if maxDomainSize < elements.length then
    .error .invalidInputLength
  else
    .ok
      { elements :=
          elements ++
            List.replicate (elements.length.nextPowerOfTwo - elements.length) ⟨0, frModulus_pos⟩
        lengthOfPaddedBlob }

/-- `Polynomial.new` succeeds exactly when the elements fit the largest domain. -/
theorem Polynomial.new_isOk_iff
    (elements : List Fr) (lengthOfPaddedBlob : Nat) :
    (∃ p, Polynomial.new elements lengthOfPaddedBlob = .ok p) ↔
      elements.length ≤ maxDomainSize := by
  unfold Polynomial.new
  split <;> simp <;> omega

/-- A polynomial built by `Polynomial.new` starts with the given elements, keeps
the padded blob length, and has a power-of-two domain. -/
theorem Polynomial.new_spec
    {elements : List Fr} {lengthOfPaddedBlob : Nat} {p : Polynomial}
    (h : Polynomial.new elements lengthOfPaddedBlob = .ok p) :
    elements <+: p.elements ∧ p.lengthOfPaddedBlob = lengthOfPaddedBlob ∧
      p.elements.length.isPowerOfTwo := by
  unfold Polynomial.new at h
  split at h
  · cases h
  · cases h
    refine ⟨List.prefix_append _ _, rfl, ?_⟩
    have hle := le_nextPowerOfTwo elements.length
    simpa [Nat.add_sub_cancel' hle] using Nat.isPowerOfTwo_nextPowerOfTwo elements.length

/-- Doubling a power of two below another power of two stays within it. -/
theorem mul_two_le_of_isPowerOfTwo {p m : Nat} (hp : p.isPowerOfTwo) (hm : m.isPowerOfTwo)
    (h : p < m) : p * 2 ≤ m := by
  obtain ⟨i, rfl⟩ := hp
  obtain ⟨j, rfl⟩ := hm
  rw [← Nat.pow_succ]
  exact Nat.pow_le_pow_right (by decide) ((Nat.pow_lt_pow_iff_right (by decide)).1 h)

theorem dvd_of_isPowerOfTwo_le {p m : Nat} (hp : p.isPowerOfTwo) (hm : m.isPowerOfTwo)
    (h : p ≤ m) : p ∣ m := by
  obtain ⟨i, rfl⟩ := hp
  obtain ⟨j, rfl⟩ := hm
  exact Nat.pow_dvd_pow 2 ((Nat.pow_le_pow_iff_right (by decide)).1 h)

/-- The search behind `Nat.nextPowerOfTwo`, started at a power of two, stops at or
below every power of two above its bound. -/
theorem nextPowerOfTwo_go_le {n m : Nat} (hm : m.isPowerOfTwo) (hn : n ≤ m) (power : Nat)
    (h : power > 0) (hp : power.isPowerOfTwo) (hle : power ≤ m) :
    Nat.nextPowerOfTwo.go n power h ≤ m := by
  induction power, h using Nat.nextPowerOfTwo.go.induct n with
  | case1 power h hlt ih =>
      rw [Nat.nextPowerOfTwo.go, if_pos hlt]
      exact ih (Nat.mul2_isPowerOfTwo_of_isPowerOfTwo hp)
        (mul_two_le_of_isPowerOfTwo hp hm (by omega))
  | case2 power h hlt =>
      rw [Nat.nextPowerOfTwo.go, if_neg hlt]
      exact hle

/-- `Nat.nextPowerOfTwo n` is the least power of two not below `n`. -/
theorem nextPowerOfTwo_le {n m : Nat} (hm : m.isPowerOfTwo) (hn : n ≤ m) :
    n.nextPowerOfTwo ≤ m :=
  nextPowerOfTwo_go_le hm hn 1 _ Nat.one_isPowerOfTwo (Nat.pos_of_isPowerOfTwo hm)

theorem maxDomainSize_isPowerOfTwo : maxDomainSize.isPowerOfTwo :=
  ⟨28, rfl⟩

/-- A polynomial built by `Polynomial.new` has the least power-of-two domain that
holds its elements; the domain size divides `frModulus - 1`; the elements behind
the given ones are zero. -/
theorem Polynomial.new_domain {elements : List Fr} {lengthOfPaddedBlob : Nat} {p : Polynomial}
    (h : Polynomial.new elements lengthOfPaddedBlob = .ok p) :
    p.elements.length = elements.length.nextPowerOfTwo ∧
      (∀ m, m.isPowerOfTwo → elements.length ≤ m → p.elements.length ≤ m) ∧
      p.elements.length ∣ frModulus - 1 ∧
      ∀ x ∈ p.elements.drop elements.length, x.val = 0 := by
  unfold Polynomial.new at h
  split at h
  · cases h
  · cases h
    have hlen : (elements ++ List.replicate (elements.length.nextPowerOfTwo - elements.length)
        (⟨0, frModulus_pos⟩ : Fr)).length = elements.length.nextPowerOfTwo := by
      simp [Nat.add_sub_cancel' (le_nextPowerOfTwo elements.length)]
    have hmax : elements.length.nextPowerOfTwo ≤ maxDomainSize :=
      nextPowerOfTwo_le maxDomainSize_isPowerOfTwo (by omega)
    dsimp only
    refine ⟨hlen, fun m hm hn => hlen.le.trans (nextPowerOfTwo_le hm hn), ?_, ?_⟩
    · rw [hlen]
      exact Nat.dvd_trans (dvd_of_isPowerOfTwo_le (Nat.isPowerOfTwo_nextPowerOfTwo _)
        maxDomainSize_isPowerOfTwo hmax) maxDomainSize_two_adicity.1
    · rw [List.drop_left]
      intro x hx
      rw [List.eq_of_mem_replicate hx]

end KzgBn254
