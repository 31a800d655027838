import Offside.Position

/-!
# Reading a source character by character

A reader is the text that is still to be read together with the position of its first character.
-/

namespace Offside

structure Reader where
  rest : List Char
  position : Position
  deriving DecidableEq, Repr

namespace Reader

def ofString (source : String) : Reader :=
  ⟨source.toList, Position.start⟩

def atEnd (r : Reader) : Bool :=
  r.rest.isEmpty

def first? (r : Reader) : Option Char :=
  r.rest.head?

/-- Reads the characters `cs`, which are those that `rest` follows. -/
def past (r : Reader) (cs rest : List Char) : Reader :=
  ⟨rest, r.position.pastAll cs⟩

/-- Reads `n` characters, or all that are left. -/
def skip (r : Reader) (n : Nat) : Reader :=
  r.past (r.rest.take n) (r.rest.drop n)

def remainder (r : Reader) : String :=
  String.ofList r.rest

/-- The length of the remaining text in UTF-8. -/
def bytesLeft (r : Reader) : Nat :=
  r.rest.foldl (fun n c ↦ n + c.utf8Size) 0

@[simp] theorem skip_zero (r : Reader) : r.skip 0 = r := rfl

theorem skip_succ_cons (p : Position) (c : Char) (cs : List Char) (n : Nat) :
    skip ⟨c :: cs, p⟩ (n + 1) = skip ⟨cs, p.past c⟩ n := rfl

end Reader
end Offside
