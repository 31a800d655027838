import Offside.Position
import Offside.Text.Trim

/-!
# Lines of a source

Lines are separated by line feeds and numbered from 1. A line is shown without the carriage
returns at its end.
-/

namespace Offside
namespace Source

/-- The text from the start of the line that `n` line breaks precede. -/
def fromLine? : Nat → List Char → Option (List Char)
  | 0, cs => some cs
  | n + 1, cs =>
      match cs.dropWhile (· ≠ '\n') with
      | [] => none
      | _ :: rest => fromLine? n rest

/-- The line with the given number; line 0 is the line of no position. -/
def line? (source : List Char) : Nat → Option (List Char)
  | 0 => none
  | n + 1 => (fromLine? n source).map fun cs ↦
      Text.dropEndWhile (· = '\r') (cs.takeWhile (· ≠ '\n'))

def lineAt? (source : String) (p : Position) : Option String :=
  (line? source.toList p.line.toNat).map String.ofList

end Source
end Offside
