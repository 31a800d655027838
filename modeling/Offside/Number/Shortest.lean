import Offside.Number.Rounding

/-!
# Shortest decimals

The decimal with the fewest digits that rounds to a given double. For one digit, two digits and so
on, the two neighbours of the number on the grid of such decimals are tried, in exact arithmetic;
the first grid with a neighbour that reads back gives the decimal. Where both neighbours do, the
nearer is taken, and the greater if they are equally near.
-/

namespace Offside

/-- The number `coefficient · 10 ^ exponent`. -/
structure Decimal where
  coefficient : Nat
  exponent : Int
  deriving DecidableEq, Repr

/-- The ratio `num / den` divided by `10 ^ k`, again as a ratio. -/
def unscaleDecimal (num den : Nat) : Int → Nat × Nat
  | .ofNat k => (num, den * Nat.pow 10 k)
  | .negSucc k => (num * Nat.pow 10 (k + 1), den)

/-- The greatest `k` with `10 ^ k ≤ num / den`. It is estimated from the binary logarithm, by a
fraction slightly below the logarithm of 2 to the base 10, and then corrected. -/
def ratioLog10 (num den : Nat) : Int :=
  let k := ratioLog2 num den * 30102 / 100000
  let atLeast (k : Int) : Bool :=
    let (n, d) := unscaleDecimal num den k
    d ≤ n
  if atLeast (k + 1) then k + 1
  else if atLeast k then k
  else k - 1

namespace Binary64

/-- The reals that round to a positive finite number, in quarters of its last place: the number
itself, the end below and the end above. Below a power of two the grid is twice as fine. -/
structure Interval where
  low : Nat
  value : Nat
  high : Nat
  /-- Whether the ends themselves round to the number. -/
  closed : Bool
  deriving DecidableEq, Repr

def interval (x : Binary64) : Interval :=
  let m := x.significand
  { low := 4 * m - (if x.fraction = 0 && 1 < x.biasedExponent then 1 else 2)
    value := 4 * m
    high := 4 * m + 2
    closed := m % 2 = 0 }

/-- Whether `n / d`, counted in the units of the interval, lies in it. -/
def Interval.holds (i : Interval) (n d : Nat) : Bool :=
  if i.closed then i.low * d ≤ n && n ≤ i.high * d
  else i.low * d < n && n < i.high * d

/-- The decimal on the grid of `10 ^ g` that reads back as a number of the given interval and unit
`2 ^ u`, if one of the two neighbours on the grid does. -/
def onGrid? (i : Interval) (u g : Int) : Option Decimal :=
  let (num, den) := scaleRatio i.value 1 u
  let (n, d) := unscaleDecimal num den g
  let down := n / d
  -- a grid point `c` is `c · d / n` times the value, so `c · d · value / n` quarters
  let holds (c : Nat) : Bool := i.holds (c * d * i.value) n
  match holds down, holds (down + 1) with
  | true, true => some ⟨if 2 * (n % d) < d then down else down + 1, g⟩
  | true, false => some ⟨down, g⟩
  | false, true => some ⟨down + 1, g⟩
  | false, false => none

/-- Seventeen digits always suffice, so the last line is only reached by numbers without an
interval. -/
def shortestFrom (i : Interval) (u : Int) (first : Int) : Nat → Decimal
  | 0 => ⟨0, 0⟩
  | fuel + 1 => match onGrid? i u first with
    | some d => d
    | none => shortestFrom i u (first - 1) fuel

/-- The shortest decimal of a positive finite number. -/
def shortest (x : Binary64) : Decimal :=
  let i := x.interval
  let u := x.exponent - 2
  let (num, den) := scaleRatio i.value 1 u
  shortestFrom i u (ratioLog10 num den) 17

end Binary64
end Offside
