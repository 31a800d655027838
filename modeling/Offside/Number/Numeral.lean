import Offside.Number.Rounding

/-!
# Numerals

What text denotes a number. An integer is an optional sign, a digit, and then digits and
underscores, which count for nothing. A double is an optional sign followed either by one of the
words `inf`, `infinity` and `nan` in any case, or by digits with at most one point among them and
an optional exponent.
-/

namespace Offside
namespace Numeral

def digitValue (c : Char) : Nat :=
  c.toNat - '0'.toNat

def ofDigits (ds : List Char) : Nat :=
  ds.foldl (fun n d ↦ 10 * n + digitValue d) 0

/-- Whether a minus stands in front, and what follows the sign. -/
def splitSign : List Char → Bool × List Char
  | '-' :: cs => (true, cs)
  | '+' :: cs => (false, cs)
  | cs => (false, cs)

def signed (negative : Bool) (n : Nat) : Int :=
  if negative then -n else n

def startsWithDigit : List Char → Bool
  | c :: _ => c.isDigit
  | [] => false

def integer? (text : List Char) : Option Int :=
  let (negative, body) := splitSign text
  if startsWithDigit body && body.all (fun c ↦ c.isDigit || c = '_') then
    some (signed negative (ofDigits (body.filter Char.isDigit)))
  else none

/-- Once an exponent has reached this value its further digits are ignored. -/
def exponentBound : Nat := 65536

def exponentValue (ds : List Char) : Nat :=
  ds.foldl (fun n d ↦ if n < exponentBound then 10 * n + digitValue d else n) 0

/-- The value of an exponent part; no part at all is exponent 0. -/
def exponent? : List Char → Option Int
  | [] => some 0
  | c :: cs =>
      let (negative, ds) := splitSign cs
      if c.toLower = 'e' && startsWithDigit ds && ds.all Char.isDigit then
        some (signed negative (exponentValue ds))
      else none

def decimal? (negative : Bool) (body : List Char) : Option Binary64 :=
  let whole := body.takeWhile Char.isDigit
  let (places, rest) := match body.dropWhile Char.isDigit with
    | '.' :: cs => (cs.takeWhile Char.isDigit, cs.dropWhile Char.isDigit)
    | cs => ([], cs)
  if whole.isEmpty && places.isEmpty then none
  else (exponent? rest).map fun e ↦
    Binary64.ofDecimal negative (ofDigits (whole ++ places)) (e - places.length)

def double? (text : List Char) : Option Binary64 :=
  let (negative, body) := splitSign text
  let word := String.ofList (body.map Char.toLower)
  if word = "inf" || word = "infinity" then some (Binary64.infinity negative)
  else if word = "nan" then some Binary64.nan
  else decimal? negative body

end Numeral
end Offside
