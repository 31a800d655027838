/-!
# Positions in a source

A position is a line and a column, both counted from 1 in characters. Reading a character moves
the position: a line break to the start of the next line, any other character one column on.
-/

namespace Offside

/-- Both numbers are 32-bit words and wrap. -/
structure Position where
  line : UInt32
  column : UInt32
  deriving DecidableEq, Inhabited, Repr

namespace Position

def start : Position := ⟨1, 1⟩

/-- The position of a node whose place in the source has been forgotten. -/
def unset : Position := ⟨0, 0⟩

def past (p : Position) (c : Char) : Position :=
  if c = '\n' then ⟨p.line + 1, 1⟩ else ⟨p.line, p.column + 1⟩

def pastAll (p : Position) (cs : List Char) : Position :=
  cs.foldl past p

@[simp] theorem pastAll_nil (p : Position) : p.pastAll [] = p := rfl

@[simp] theorem pastAll_cons (p : Position) (c : Char) (cs : List Char) :
    p.pastAll (c :: cs) = (p.past c).pastAll cs := rfl

@[simp] theorem pastAll_append (p : Position) (cs ds : List Char) :
    p.pastAll (cs ++ ds) = (p.pastAll cs).pastAll ds :=
  List.foldl_append

/-- The first column of the same line. -/
def margin (p : Position) : Position :=
  ⟨p.line, 1⟩

/-- The written form, `line:column`. -/
def text (p : Position) : String :=
  toString p.line.toNat ++ ":" ++ toString p.column.toNat

end Position
end Offside
