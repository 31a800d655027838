import Offside.Token.Kind

/-!
# Levels of indentation

A block that is written by indentation opens a level, which is the width of its lines. The open
levels are kept innermost first. Under them lies the margin, of width 0, which never closes.
-/

namespace Offside

/-- What a character at the start of a line adds to its width. -/
def blankWidth (c : Char) : Nat :=
  if c = ' ' then 1 else if c = '\t' then 4 else 0

def indentWidth (blanks : List Char) : Nat :=
  blanks.foldl (fun width c ↦ width + blankWidth c) 0

theorem foldl_blankWidth (width : Nat) (blanks : List Char) :
    blanks.foldl (fun width c ↦ width + blankWidth c) width = width + indentWidth blanks := by
  induction blanks generalizing width with
  | nil => rfl
  | cons c cs ih =>
      simp only [indentWidth, List.foldl_cons]
      rw [ih, ih (0 + blankWidth c)]
      omega

@[simp] theorem indentWidth_nil : indentWidth [] = 0 := rfl

@[simp] theorem indentWidth_cons (c : Char) (cs : List Char) :
    indentWidth (c :: cs) = blankWidth c + indentWidth cs := by
  rw [indentWidth, List.foldl_cons, foldl_blankWidth, Nat.zero_add]

/-- The widths of the open levels, innermost first, without the margin. -/
structure Levels where
  widths : List Nat
  deriving DecidableEq, Repr

namespace Levels

def margin : Levels := ⟨[]⟩

def innermost (l : Levels) : Nat :=
  l.widths.headD 0

/-- A line of width `w` opens a level when it is wider than the innermost one. Otherwise it closes
every level wider than itself, whether or not one of its own width is then left. -/
def settle (l : Levels) (w : Nat) : List Kind × Levels :=
  if l.innermost < w then ([.indent], ⟨w :: l.widths⟩)
  else ((l.widths.takeWhile (w < ·)).map fun _ ↦ .dedent, ⟨l.widths.dropWhile (w < ·)⟩)

/-- One dedent for every level that is open at the end of the source. -/
def close (l : Levels) : List Kind :=
  l.widths.map fun _ ↦ .dedent

theorem settle_of_lt {l : Levels} {w : Nat} (h : l.innermost < w) :
    l.settle w = ([.indent], ⟨w :: l.widths⟩) := by
  simp [settle, h]

theorem settle_of_le {l : Levels} {w : Nat} (h : w ≤ l.innermost) :
    l.settle w = ((l.widths.takeWhile (w < ·)).map fun _ ↦ .dedent,
      ⟨l.widths.dropWhile (w < ·)⟩) := by
  simp [settle, Nat.not_lt.mpr h]

/-- A line as wide as the innermost level neither opens nor closes one. -/
theorem settle_innermost (l : Levels) : l.settle l.innermost = ([], l) := by
  obtain ⟨_ | ⟨v, vs⟩⟩ := l <;> simp [settle, innermost]

end Levels
end Offside
