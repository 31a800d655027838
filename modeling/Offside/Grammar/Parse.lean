import Offside.Fault
import Offside.Grammar.Cursor

/-!
# Parsers

A parser moves a cursor and gives a result or a fault. After a fault the cursor stays where it
was found and the open levels stay open.
-/

namespace Offside

abbrev Parse := EStateM Fault Cursor

namespace Parse

/-- Runs a parser from a cursor. -/
def apply {α : Type} (p : Parse α) (c : Cursor) : Except Fault α × Cursor :=
  match p c with
  | .ok a d => (.ok a, d)
  | .error f d => (.error f, d)

def current : Parse Token :=
  return (← get).current

def kind : Parse Kind :=
  return (← current).kind

def position : Parse Position :=
  return (← current).position

def advance : Parse Token :=
  modifyGet Cursor.advance

def skipNewlines : Parse Unit :=
  modify Cursor.skipNewlines

/-- Rejects the current token for the given cause. -/
def reject {α : Type} (cause : Cause) : Parse α := do
  throw ⟨cause, ← position⟩

def expect (k : Kind) : Parse Token := do
  let token ← current
  if token.kind = k then advance
  else reject (.unexpectedToken k token.describe)

def identifier : Parse String :=
  return (← expect .identifier).lexeme

/-- Opens a level. The count goes up even if there was no room. -/
def enter : Parse Unit := do
  modify Cursor.deepen
  let c ← get
  if c.limit < c.depth then reject (.nestingTooDeep c.limit)

def leave : Parse Unit :=
  modify Cursor.surface

/-- Runs `p` inside a level of its own. What is parsed there may in turn need what `inner` holds
for the next level; no room is left exactly when there is nothing. -/
def entering {σ α : Type} (inner : Option σ) (p : σ → Parse α) : Parse α := do
  enter
  match inner with
  | none => reject (.nestingTooDeep (← get).limit)
  | some s =>
      let a ← p s
      leave
      return a

/-- Repeats `body` as long as `next?` finds at the cursor what to go on with. The list bounds the
number of rounds. -/
def chainWithin {α β : Type} (next? : Kind → Option β) (body : α → β → Parse α) :
    List Token → α → Parse α
  | [], a => return a
  | _ :: bound, a => do
      match next? (← kind) with
      | none => return a
      | some b => chainWithin next? body bound (← body a b)

/-- Repeats `body` as long as `next?` finds at the cursor what to go on with. Every round has to
read a token and `next?` has to find nothing at the end mark, so there are at most as many rounds
as tokens ahead. -/
def chain {α β : Type} (next? : Kind → Option β) (body : α → β → Parse α) (a : α) :
    Parse α := do
  chainWithin next? body (← get).ahead a

/-- The items that `item` reads as long as the current token satisfies `p`. -/
def many {α : Type} (p : Kind → Bool) (item : Parse α) : Parse (List α) := do
  let found ← chain (fun k ↦ if p k then some () else none)
    (fun items _ ↦ return (← item) :: items) []
  return found.reverse

/-- One item or more, with commas between them. -/
def commaSeparated {α : Type} (item : Parse α) : Parse (List α) := do
  let first ← item
  let others ← many (· = .mark .comma) do
    discard advance
    item
  return first :: others

/-- Items with commas between them, or none if `close` follows, which is not read. -/
def listUntil {α : Type} (close : Kind) (item : Parse α) : Parse (List α) := do
  if (← kind) = close then return []
  else commaSeparated item

/-- What `p` reads after a token of kind `k`, if one stands here. -/
def after? {α : Type} (k : Kind) (p : Parse α) : Parse (Option α) := do
  if (← kind) = k then
    discard advance
    return some (← p)
  else return none

/-! What the steps do to a cursor. -/

theorem bind_eq {α β : Type} (p : Parse α) (f : α → Parse β) (c : Cursor) :
    (p >>= f) c = match p c with
      | .ok a d => f a d
      | .error e d => .error e d := by
  show EStateM.bind p f c = _
  unfold EStateM.bind
  cases p c <;> rfl

theorem current_eq (c : Cursor) : current c = .ok c.current c := rfl

theorem kind_eq (c : Cursor) : kind c = .ok c.current.kind c := rfl

theorem advance_eq (c : Cursor) : advance c = .ok c.advance.1 c.advance.2 := rfl

theorem skipNewlines_eq (c : Cursor) : skipNewlines c = .ok () c.skipNewlines := rfl

theorem reject_eq {α : Type} (cause : Cause) (c : Cursor) :
    (reject cause : Parse α) c = .error ⟨cause, c.current.position⟩ c := rfl

theorem expect_eq (k : Kind) (c : Cursor) :
    expect k c = if c.current.kind = k then .ok c.advance.1 c.advance.2
      else .error ⟨.unexpectedToken k c.current.describe, c.current.position⟩ c := by
  simp only [expect, bind_eq, current_eq]
  split <;> rfl

theorem enter_eq (c : Cursor) :
    enter c = if c.limit < c.depth + 1 then
        .error ⟨.nestingTooDeep c.limit, c.current.position⟩ c.deepen
      else .ok () c.deepen := by
  show (if c.limit < c.depth + 1 then _ else _ : Parse Unit) c.deepen = _
  split <;> rfl

/-- With nothing inside a level cannot be opened, whatever the count. -/
theorem entering_none {σ α : Type} (p : σ → Parse α) (c : Cursor) :
    entering none p c = .error ⟨.nestingTooDeep c.limit, c.current.position⟩ c.deepen := by
  simp only [entering, bind_eq, enter_eq]
  split
  · next h =>
      split at h <;> cases h
      rfl
  · next h =>
      split at h <;> cases h
      rfl

/-- While there is room, `p` runs one level deeper and the level is closed after it. -/
theorem entering_some {σ α : Type} (s : σ) (p : σ → Parse α) {c : Cursor}
    (h : c.depth < c.limit) :
    entering (some s) p c = match p s c.deepen with
      | .ok a d => .ok a d.surface
      | .error e d => .error e d := by
  simp only [entering, bind_eq, enter_eq, Nat.not_lt.mpr (Nat.succ_le_of_lt h), if_false]
  cases p s c.deepen <;> rfl

end Parse
end Offside
