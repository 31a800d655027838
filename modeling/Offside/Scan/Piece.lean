import Offside.Mode
import Offside.Fault
import Offside.Number.Numeral
import Offside.Unicode.Alphabetic
import Offside.Unicode.Number

/-!
# Pieces of a line

A line is cut into pieces from left to right, each as long as its shape allows: blanks, a comment,
the line break, a numeral, a string, a word or a mark. The first character decides the shape, and
a character that starts no piece cannot stand there.
-/

namespace Offside

inductive Piece.Shape where
  | blank
  | comment
  | lineBreak
  | integer
  | decimal
  | string (value : List Char) (closed : Bool)
  | word
  | mark (m : Mark)
  deriving DecidableEq, Repr

structure Piece where
  shape : Piece.Shape
  lexeme : List Char
  /-- The text after the piece. -/
  rest : List Char
  deriving DecidableEq, Repr

namespace Piece

def isBlank (c : Char) : Bool :=
  c = ' ' || c = '\t' || c = '\r'

def isQuote (c : Char) : Bool :=
  c = '\'' || c = '\"'

def startsWord (c : Char) : Bool :=
  Unicode.isAlphabetic c || c = '_'

def continuesWord (c : Char) : Bool :=
  Unicode.isAlphabetic c || Unicode.isNumber c || c = '_'

/-- The piece that goes on as long as its characters satisfy `p`. -/
def run (shape : Shape) (p : Char → Bool) (c : Char) (cs : List Char) : Piece :=
  ⟨shape, c :: cs.takeWhile p, cs.dropWhile p⟩

/-- Digits, and if a point follows them, it and the digits after it. -/
def numeral (c : Char) (cs : List Char) : Piece :=
  let whole := c :: cs.takeWhile Char.isDigit
  match cs.dropWhile Char.isDigit with
  | '.' :: rest => ⟨.decimal, whole ++ '.' :: rest.takeWhile Char.isDigit,
      rest.dropWhile Char.isDigit⟩
  | rest => ⟨.integer, whole, rest⟩

/-- The character that a backslash and `c` stand for. -/
def unescape (c : Char) : Char :=
  if c = 'n' then '\n' else if c = 't' then '\t' else if c = 'r' then '\r' else c

/-- Reads a string up to its closing quote, or to the end of the text if there is none. The value
and the text read so far are given last character first. A backslash that ends the text stands for
nothing. -/
def stringFrom (quote : Char) (value lexeme : List Char) : List Char → Piece
  | [] => ⟨.string value.reverse false, lexeme.reverse, []⟩
  | c :: cs =>
      if c = quote then ⟨.string value.reverse true, (c :: lexeme).reverse, cs⟩
      else if c = '\\' then
        match cs with
        | [] => ⟨.string value.reverse false, (c :: lexeme).reverse, []⟩
        | d :: ds => stringFrom quote (unescape d :: value) (d :: c :: lexeme) ds
      else stringFrom quote (c :: value) (c :: lexeme) cs

def mark? (c : Char) (cs : List Char) : Option Piece :=
  match cs with
  | [] => (Mark.ofChar? c).map fun m ↦ ⟨.mark m, [c], []⟩
  | d :: ds =>
      match Mark.ofPair? c d with
      | some m => some ⟨.mark m, [c, d], ds⟩
      | none => (Mark.ofChar? c).map fun m ↦ ⟨.mark m, [c], d :: ds⟩

/-- The piece at the front of the text `c :: cs`. -/
def at? (c : Char) (cs : List Char) : Option Piece :=
  if isBlank c then some (run .blank isBlank c cs)
  else if c = '\n' then some ⟨.lineBreak, [c], cs⟩
  else if c = '#' then some (run .comment (· ≠ '\n') c cs)
  else if c.isDigit then some (numeral c cs)
  else if isQuote c then some (stringFrom c [] [c] cs)
  else if startsWord c then some (run .word continuesWord c cs)
  else mark? c cs

theorem stringFrom_append (quote : Char) (value lexeme cs : List Char) :
    (stringFrom quote value lexeme cs).lexeme ++ (stringFrom quote value lexeme cs).rest =
      lexeme.reverse ++ cs := by
  fun_induction stringFrom quote value lexeme cs <;> simp_all

theorem mark?_append {c : Char} {cs : List Char} {p : Piece} (h : mark? c cs = some p) :
    p.lexeme ++ p.rest = c :: cs := by
  unfold mark? at h
  split at h
  · obtain ⟨m, -, rfl⟩ := Option.map_eq_some_iff.mp h
    rfl
  · split at h
    · cases h
      rfl
    · obtain ⟨m, -, rfl⟩ := Option.map_eq_some_iff.mp h
      rfl

theorem run_append (shape : Shape) (p : Char → Bool) (c : Char) (cs : List Char) :
    (run shape p c cs).lexeme ++ (run shape p c cs).rest = c :: cs := by
  simp [run]

theorem numeral_append (c : Char) (cs : List Char) :
    (numeral c cs).lexeme ++ (numeral c cs).rest = c :: cs := by
  have h := List.takeWhile_append_dropWhile (p := Char.isDigit) (l := cs)
  unfold numeral
  split
  · next rest heq =>
      rw [heq] at h
      simpa using h
  · simp [h]

/-- Cutting loses nothing. -/
theorem at?_append {c : Char} {cs : List Char} {p : Piece} (h : at? c cs = some p) :
    p.lexeme ++ p.rest = c :: cs := by
  unfold at? at h
  repeat' split at h
  all_goals try (obtain rfl := Option.some.inj h)
  · exact run_append _ _ _ _
  · rfl
  · exact run_append _ _ _ _
  · exact numeral_append _ _
  · simpa using stringFrom_append c [] [c] cs
  · exact run_append _ _ _ _
  · exact mark?_append h

theorem stringFrom_lexeme_ne_nil {quote : Char} {value lexeme cs : List Char}
    (h : lexeme ≠ []) : (stringFrom quote value lexeme cs).lexeme ≠ [] := by
  fun_induction stringFrom quote value lexeme cs <;> simp_all

theorem mark?_lexeme_ne_nil {c : Char} {cs : List Char} {p : Piece} (h : mark? c cs = some p) :
    p.lexeme ≠ [] := by
  unfold mark? at h
  split at h
  · obtain ⟨m, -, rfl⟩ := Option.map_eq_some_iff.mp h
    simp
  · split at h
    · cases h
      simp
    · obtain ⟨m, -, rfl⟩ := Option.map_eq_some_iff.mp h
      simp

theorem numeral_lexeme_ne_nil (c : Char) (cs : List Char) : (numeral c cs).lexeme ≠ [] := by
  unfold numeral
  split <;> simp

theorem at?_lexeme_ne_nil {c : Char} {cs : List Char} {p : Piece} (h : at? c cs = some p) :
    p.lexeme ≠ [] := by
  unfold at? at h
  repeat' split at h
  all_goals try (obtain rfl := Option.some.inj h)
  · simp [run]
  · simp
  · simp [run]
  · exact numeral_lexeme_ne_nil _ _
  · exact stringFrom_lexeme_ne_nil (by simp)
  · simp [run]
  · exact mark?_lexeme_ne_nil h

/-- The text after a piece is shorter than the text before it. -/
theorem length_rest_lt {c : Char} {cs : List Char} {p : Piece} (h : at? c cs = some p) :
    p.rest.length < (c :: cs).length := by
  have happ := congrArg List.length (at?_append h)
  have hpos := List.length_pos_iff.mpr (at?_lexeme_ne_nil h)
  rw [List.length_append] at happ
  omega

/-- The token that a piece is, if it is one. -/
def token? (mode : Mode) (position : Position) (p : Piece) : Except Cause (Option Token) :=
  let lexeme := String.ofList p.lexeme
  let token (kind : Kind) (literal : Option Literal) : Except Cause (Option Token) :=
    .ok (some ⟨kind, lexeme, literal, position⟩)
  match p.shape with
  | .blank | .comment => .ok none
  | .lineBreak => token .newline none
  | .integer => match Numeral.integer? p.lexeme with
      | some n => token .integer (some (.integer n))
      | none => .error (.malformedNumber lexeme)
  | .decimal => match Numeral.double? p.lexeme with
      | some x => token .float (some (.float x))
      | none => .error (.malformedNumber lexeme)
  | .string value closed =>
      if !closed && mode.isStrict then .error .unterminatedString
      else token .string (some (.text (String.ofList value)))
  | .word => match Keyword.ofWord? lexeme with
      | some k => token (.keyword k) k.literal?
      | none => token .identifier (some (.text lexeme))
  | .mark m => token (.mark m) none

end Piece
end Offside
