import Offside.Number.Shortest
import Offside.Text.Trim

/-!
# The written form of a double

The shortest decimal that reads back. It is positional, with at least one digit on either side of
the point, for zero and from `10 ^ (-4)` up to `10 ^ 16`, and has an exponent outside.
-/

namespace Offside

/-- The digits of a decimal from the first that is not zero to the last, and how many of them
stand before the point: none or a negative number for a decimal below one. -/
structure Digits where
  digits : List Char
  point : Int
  deriving DecidableEq, Repr

namespace Digits

def ofDecimal (d : Decimal) : Digits :=
  let digits := Nat.toDigits 10 d.coefficient
  ⟨Text.dropEndWhile (· = '0') digits, digits.length + d.exponent⟩

def zeros (n : Nat) : List Char :=
  List.replicate n '0'

def positional (d : Digits) : List Char :=
  let whole := d.digits.take d.point.toNat ++ zeros (d.point.toNat - d.digits.length)
  let places := zeros (-d.point).toNat ++ d.digits.drop d.point.toNat
  (if whole.isEmpty then ['0'] else whole) ++ '.' :: if places.isEmpty then ['0'] else places

def scientific (d : Digits) : List Char :=
  let places := d.digits.drop 1
  d.digits.take 1 ++ (if places.isEmpty then [] else '.' :: places) ++
    'e' :: (toString (d.point - 1)).toList

def text (d : Digits) : List Char :=
  if -4 < d.point && d.point ≤ 16 then d.positional else d.scientific

end Digits

namespace Binary64

def text (x : Binary64) : String :=
  if x.isNaN then "NaN"
  else
    (if x.isNegative then "-" else "") ++
      if x.isInfinite then "inf"
      else if x.isZero then "0.0"
      else String.ofList (Digits.ofDecimal x.shortest).text

end Binary64
end Offside
