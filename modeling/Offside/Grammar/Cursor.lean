import Offside.Mode
import Offside.Token.Basic

/-!
# Cursors

A cursor stands in a list of tokens before its first end mark, which it never passes. It counts
the open expressions, operators in front of operands, and blocks, of which only so many may be
open at once.
-/

namespace Offside

/-- How many levels may be open at once. -/
def nestingLimit : Nat := 256

structure Cursor where
  /-- The tokens before the end mark that are still to be read. -/
  ahead : List Token
  /-- The first end mark. -/
  stop : Token
  /-- What follows the end mark; it can be seen but not reached. -/
  beyond : List Token
  depth : Nat
  limit : Nat
  mode : Mode
  deriving DecidableEq, Repr

namespace Cursor

/-- The list with an end mark as its last token. One that has to be added stands where the last
token stands. -/
def sealTokens (tokens : List Token) : List Token :=
  match tokens.getLast? with
  | none => [Token.layout .eof .start]
  | some last => if last.kind = .eof then tokens else tokens ++ [Token.layout .eof last.position]

def ofTokens (mode : Mode) (tokens : List Token) : Cursor :=
  let closed := sealTokens tokens
  let fromStop := closed.dropWhile (·.kind ≠ .eof)
  { ahead := closed.takeWhile (·.kind ≠ .eof)
    stop := fromStop.headD (Token.layout .eof .start)
    beyond := fromStop.drop 1
    depth := 0
    limit := nestingLimit
    mode := mode }

def current (c : Cursor) : Token :=
  c.ahead.headD c.stop

/-- The token `n` places on, or the last of all. -/
def peek (c : Cursor) (n : Nat) : Token :=
  let tokens := c.ahead ++ c.stop :: c.beyond
  tokens[n]?.getD (tokens.getLastD c.stop)

/-- The current token, and the cursor after it. -/
def advance (c : Cursor) : Token × Cursor :=
  match c.ahead with
  | [] => (c.stop, c)
  | t :: rest => (t, { c with ahead := rest })

def skipNewlines (c : Cursor) : Cursor :=
  { c with ahead := c.ahead.dropWhile (·.kind = .newline) }

def deepen (c : Cursor) : Cursor :=
  { c with depth := c.depth + 1 }

def surface (c : Cursor) : Cursor :=
  { c with depth := c.depth - 1 }

/-- How many levels can still be opened. -/
def room (c : Cursor) : Nat :=
  c.limit - c.depth

theorem advance_of_ahead_eq_nil {c : Cursor} (h : c.ahead = []) : c.advance = (c.stop, c) := by
  simp [advance, h]

theorem advance_of_ahead_eq_cons {c : Cursor} {t : Token} {rest : List Token}
    (h : c.ahead = t :: rest) : c.advance = (t, { c with ahead := rest }) := by
  simp [advance, h]

theorem current_eq_fst_advance (c : Cursor) : c.current = c.advance.1 := by
  obtain ⟨_ | ⟨t, rest⟩, stop, beyond, depth, limit, mode⟩ := c <;> rfl

/-- Skipping line breaks reads nothing but line breaks. -/
theorem ahead_eq_append_skipNewlines (c : Cursor) :
    c.ahead = c.ahead.takeWhile (·.kind = .newline) ++ c.skipNewlines.ahead :=
  List.takeWhile_append_dropWhile.symm

theorem sealTokens_ne_nil (tokens : List Token) : sealTokens tokens ≠ [] := by
  unfold sealTokens
  split
  · simp
  · next last h =>
      split
      · rintro rfl
        simp at h
      · simp

end Cursor
end Offside
