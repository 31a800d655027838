/-!
# Ranges of characters

A character class is a list of closed ranges of code points, in increasing order.
-/

namespace Offside
namespace Unicode

/-- The code points from `first` to `last`, both included. -/
structure Range where
  first : Nat
  last : Nat
  deriving DecidableEq, Repr

def Range.holds (r : Range) (n : Nat) : Bool :=
  r.first ≤ n && n ≤ r.last

def covers (ranges : List Range) (c : Char) : Bool :=
  ranges.any (·.holds c.toNat)

theorem covers_eq_true_iff {ranges : List Range} {c : Char} :
    covers ranges c = true ↔ ∃ r ∈ ranges, r.first ≤ c.toNat ∧ c.toNat ≤ r.last := by
  simp [covers, Range.holds]

end Unicode
end Offside
