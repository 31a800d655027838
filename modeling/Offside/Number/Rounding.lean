import Offside.Number.Binary64

/-!
# Rounding to double precision

The binary64 number nearest to a positive ratio or to a decimal; of two nearest the one with an
even significand. What lies beyond the greatest finite number by half a unit becomes infinite.
-/

namespace Offside

/-- The integer nearest to `num / den`, an even one when two are. -/
def roundHalfEven (num den : Nat) : Nat :=
  let q := num / den
  let r := num % den
  if 2 * r < den then q
  else if den < 2 * r then q + 1
  else q + q % 2

/-- The ratio `num / den` times `2 ^ k`, again as a ratio. -/
def scaleRatio (num den : Nat) : Int → Nat × Nat
  | .ofNat k => (num * Nat.pow 2 k, den)
  | .negSucc k => (num, den * Nat.pow 2 (k + 1))

/-- The greatest `k` with `2 ^ k ≤ num / den`. -/
def ratioLog2 (num den : Nat) : Int :=
  let k : Int := (num.log2 : Int) - (den.log2 : Int)
  let (n, d) := scaleRatio num den (-k)
  if n < d then k - 1 else k

namespace Binary64

/-- The exponent of the last place of a binary64 number as great as `num / den`. -/
def unitExponent (num den : Nat) : Int :=
  max (ratioLog2 num den - 52) (-1074)

/-- A significand of `hiddenBit` or more carries into the exponent, which is how a number rounded up
to the next power of two gets its bits. -/
def ofRatio (negative : Bool) (num den : Nat) : Binary64 :=
  let q := unitExponent num den
  let (n, d) := scaleRatio num den (-q)
  ofMagnitude negative (min ((q + 1074).toNat * hiddenBit + roundHalfEven n d) infinityBits)

/-- The number nearest to `coefficient · 10 ^ exponent`. Beyond the bounds tested first the result
is known without the power of ten: `10 ^ 400` is infinite, and below `2 ^ (-1100)` all is zero. -/
def ofDecimal (negative : Bool) (coefficient : Nat) (exponent : Int) : Binary64 :=
  if coefficient = 0 then ofMagnitude negative 0
  else if 400 < exponent then infinity negative
  else if (coefficient.log2 : Int) + 1 + 3 * exponent < -1100 then ofMagnitude negative 0
  else match exponent with
    | .ofNat k => ofRatio negative (coefficient * Nat.pow 10 k) 1
    | .negSucc k => ofRatio negative coefficient (Nat.pow 10 (k + 1))

end Binary64
end Offside
