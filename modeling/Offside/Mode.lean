/-!
# Strictness

Lenient reading accepts unfinished input as an editor meets it: a string without its closing
quote ends with the source, a line may return to a width between two open levels, and an
indented block may end with the tokens. Strict reading reports each of these.
-/

namespace Offside

inductive Mode where
  | lenient
  | strict
  deriving DecidableEq, Repr

def Mode.isStrict (m : Mode) : Bool :=
  m = .strict

end Offside
