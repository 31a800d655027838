import Offside.Proofs.Parse.Track

/-!
# Routines

The parsers by name. What holds of each of them can then be said of all at once: from any cursor
a routine tracks itself, on tokens at other positions and with anything below the levels that can
still be opened.
-/

namespace Offside

theorem Cursor.limit_le_add_room (c : Cursor) : c.limit ≤ c.depth + c.room := by
  rw [room]
  omega

/-- What can be parsed at a cursor. -/
inductive Routine where
  | expr (p : Precedence)
  | operand
  | suffixed
  | atom
  | primary
  | group
  | array
  /-- Expressions with commas between them, or none in front of a token of kind `close`. -/
  | expressions (close : Kind)
  | statement
  /-- The statements in front of a token of kind `close` or the end. -/
  | statements (close : Kind)
  | body
  | block
  | function
  | parameters
  | binding
  | conditional
  | whileLoop
  | forLoop
  | returning
  | word
  | classDecl
  | importing
  | fromImport
  | localName
  | typeRef
  deriving DecidableEq, Repr

namespace Routine

abbrev Result : Routine → Type
  | expr _ | operand | suffixed | atom | primary | group | array => Expr
  | expressions _ => List Expr
  | statements _ => List Stmt
  | body | block => Block
  | parameters => List Parameter
  | localName => Option String
  | typeRef => TypeRef
  | statement | function | binding | conditional | whileLoop | forLoop | returning | word
  | classDecl | importing | fromImport => Stmt

def parser : (r : Routine) → Level → Parse r.Result
  | expr p, l => l.expr p
  | operand, l => l.operand
  | suffixed, l => Parse.suffixed l.expression
  | atom, l => Parse.atom l.expression
  | primary, _ => Parse.primary
  | group, l => Parse.group l.expression
  | array, l => Parse.array l.expression
  | expressions close, l => Parse.listUntil close l.expression
  | statement, l => l.statement
  | statements close, l => l.statements close
  | body, l => l.body
  | block, l => l.block
  | function, l => l.function
  | parameters, l => Parse.listUntil (.mark .closeParen) l.parameter
  | binding, l => l.binding
  | conditional, l => l.conditional
  | whileLoop, l => l.whileLoop
  | forLoop, l => l.forLoop
  | returning, l => l.returning
  | word, _ => Parse.word
  | classDecl, l => l.classDecl
  | importing, _ => Parse.importing
  | fromImport, _ => Parse.fromImport
  | localName, _ => Parse.localName?
  | typeRef, _ => Parse.typeRef

/-- The result at other positions. -/
def image (f : Position → Position) : (r : Routine) → r.Result → r.Result
  | expr _ | operand | suffixed | atom | primary | group | array => Expr.mapPositions f
  | expressions _ => List.map (Expr.mapPositions f)
  | statements _ => List.map (Stmt.mapPositions f)
  | body | block => Block.mapPositions f
  | parameters => List.map (Parameter.mapPositions f)
  | localName => id
  | typeRef => TypeRef.mapPositions f
  | statement | function | binding | conditional | whileLoop | forLoop | returning | word
  | classDecl | importing | fromImport => Stmt.mapPositions f

theorem image_id (r : Routine) : r.image id = id := by
  have hexpressions : List.map (Expr.mapPositions id) = id := by
    rw [Expr.mapPositions_eq_id, List.map_id_fun]
  have hstatements : List.map (Stmt.mapPositions id) = id := by
    rw [Stmt.mapPositions_eq_id, List.map_id_fun]
  have hparameters : List.map (Parameter.mapPositions id) = id := by
    rw [Parameter.mapPositions_eq_id, List.map_id_fun]
  cases r with
  | expr _ | operand | suffixed | atom | primary | group | array => exact Expr.mapPositions_eq_id
  | expressions _ => exact hexpressions
  | statements _ => exact hstatements
  | body | block => exact Block.mapPositions_eq_id
  | parameters => exact hparameters
  | localName => rfl
  | typeRef => exact TypeRef.mapPositions_eq_id
  | statement | function | binding | conditional | whileLoop | forLoop | returning | word
  | classDecl | importing | fromImport => exact Stmt.mapPositions_eq_id

open Comparison Level

variable {f : Position → Position} {n : Nat}

theorem tracks (r : Routine) {l l' : Level} (hl : l.Compares (tracking f n) l') :
    (tracking f n).Same (r.image f) (r.parser l) (r.parser l') := by
  have hexpr := hl.expr .lowest
  cases r with
  | expr p => exact hl.expr p
  | operand => exact hl.operand
  | suffixed => exact same_suffixed hexpr
  | atom => exact same_atom hexpr
  | primary => exact fun k ↦ rel_primary Parse.advance_tracked
  | group => exact same_group hexpr
  | array => exact same_array hexpr
  | expressions close => exact same_listUntil close hexpr
  | statement => exact hl.statement
  | statements close => exact hl.statements close
  | body => exact hl.body
  | block => exact hl.block
  | function => exact hl.function
  | parameters => exact same_listUntil _ hl.parameter
  | binding => exact fun k ↦ hl.binding Parse.advance_tracked
  | conditional => exact hl.conditional
  | whileLoop => exact hl.whileLoop
  | forLoop => exact hl.forLoop
  | returning => exact hl.returning
  | word => exact fun k ↦ rel_word Parse.advance_tracked
  | classDecl => exact hl.classDecl
  | importing => exact same_importing
  | fromImport => exact same_fromImport
  | localName => exact same_localName?
  | typeRef => exact same_typeRef

theorem tracks_tower (r : Routine) (bottom : Option Level) {c : Cursor}
    (hn : c.limit ≤ c.depth + n) : c.Tracks f (r.image f) (r.parser (tower bottom n) c)
      (Parse.here r.parser (c.move f)) := by
  obtain ⟨i, rfl⟩ : ∃ i, n = c.room + i := by
    refine Nat.exists_eq_add_of_le ?_
    rw [Cursor.room]
    omega
  have hlevels := tower_tracked (f := f) bottom none c.room i 0
  have hrun := r.tracks hlevels c.current.kind c.limit_le_add_room rfl
  rw [Nat.add_zero, ← ofRoom_eq_tower] at hrun
  exact hrun

/-- Whatever there is below the levels that can be opened, a routine runs as it does here. -/
theorem tower_eq_here (r : Routine) (bottom : Option Level) {c : Cursor}
    (hn : c.limit ≤ c.depth + n) : r.parser (tower bottom n) c = Parse.here r.parser c := by
  have h := r.tracks_tower (f := id) bottom hn
  rw [image_id, Cursor.move_id] at h
  exact h.eq

theorem tracks_here (r : Routine) (f : Position → Position) (c : Cursor) :
    c.Tracks f (r.image f) (Parse.here r.parser c) (Parse.here r.parser (c.move f)) := by
  rw [← r.tower_eq_here none c.limit_le_add_room]
  exact r.tracks_tower none c.limit_le_add_room

/-- What succeeds changes nothing but the tokens ahead. -/
theorem exists_facing_of_ok (r : Routine) {c d : Cursor} {a : r.Result}
    (h : Parse.here r.parser c = .ok a d) : ∃ us, us <:+ c.ahead ∧ d = c.facing us := by
  have hrun := r.tracks_here id c
  rw [h] at hrun
  generalize Parse.here r.parser (c.move id) = y at hrun
  cases hrun with
  | @ok _ us hus => exact ⟨us, hus, rfl⟩

theorem givesUp_of_error (r : Routine) {c d : Cursor} {e : Fault}
    (h : Parse.here r.parser c = .error e d) : c.GivesUp d e.cause := by
  have hrun := r.tracks_here id c
  rw [h] at hrun
  generalize Parse.here r.parser (c.move id) = y at hrun
  cases hrun with
  | error hgiven => exact hgiven

end Routine
end Offside
