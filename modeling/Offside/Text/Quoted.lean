import Offside.Unicode.GraphemeExtend
import Offside.Unicode.Printable

/-!
# Quoted text

Characters and strings as messages and listings write them. The usual controls and the backslash
get a backslash and a letter, the quote in use a backslash, and every character that cannot be
seen, or that would join the one before it, its code point in braces.
-/

namespace Offside
namespace Text

/-- What is escaped besides the characters that always are. -/
structure EscapeRule where
  single : Bool
  double : Bool
  /-- Whether characters that extend the one before are escaped. -/
  extend : Bool
  deriving DecidableEq, Repr

def codePoint (c : Char) : List Char :=
  ['\\', 'u', '\x7b'] ++ Nat.toDigits 16 c.toNat ++ ['\x7d']

def escapeChar (rule : EscapeRule) (c : Char) : List Char :=
  if c = '\x00' then ['\\', '0']
  else if c = '\t' then ['\\', 't']
  else if c = '\r' then ['\\', 'r']
  else if c = '\n' then ['\\', 'n']
  else if c = '\\' then ['\\', '\\']
  else if c = '\'' && rule.single then ['\\', '\'']
  else if c = '\"' && rule.double then ['\\', '\"']
  else if rule.extend && Unicode.isGraphemeExtend c then codePoint c
  else if Unicode.isPrintable c then [c]
  else codePoint c

/-- A character between single quotes. -/
def quoteChar (c : Char) : String :=
  String.ofList ('\'' :: escapeChar ⟨true, false, true⟩ c ++ ['\''])

/-- A string between double quotes. -/
def quote (s : String) : String :=
  String.ofList ('\"' :: s.toList.flatMap (escapeChar ⟨false, true, true⟩) ++ ['\"'])

/-- A string fit to stand between quotes of either sort. Only at its start can a character lack
one to join. -/
def escape (s : String) : String :=
  match s.toList with
  | [] => ""
  | c :: cs => String.ofList
      (escapeChar ⟨true, true, true⟩ c ++ cs.flatMap (escapeChar ⟨true, true, false⟩))

end Text
end Offside
