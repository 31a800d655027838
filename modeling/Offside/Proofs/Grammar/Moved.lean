import Offside.Tree.Positions
import Offside.Proofs.Grammar.Part

/-!
# Readings at other positions

The grammar takes the positions of a tree from its tokens and never looks at them. So tokens that
are moved to other positions are read as the tree with the positions moved in the same way.
-/

namespace Offside

variable (f : Position → Position)

def Token.mapPosition (t : Token) : Token :=
  { t with position := f t.position }

@[simp] theorem Token.kind_mapPosition (t : Token) : (t.mapPosition f).kind = t.kind := rfl

variable {f} in
theorem Token.kind_moved {t : Token} {k : Kind} (h : t.kind = k) : (t.mapPosition f).kind = k :=
  h

@[simp] theorem firstKind_map_mapPosition (ts : List Token) :
    firstKind (ts.map (Token.mapPosition f)) = firstKind ts := by
  cases ts <;> rfl

/-- Readings of a value are readings of the moved value from the moved tokens. -/
def Reading.Moves {α : Type} (g : α → α) (S : Reading α) : Prop :=
  ∀ ⦃a n ts us⦄, S a n ts us →
    S (g a) n (ts.map (Token.mapPosition f)) (us.map (Token.mapPosition f))

section

variable {f} {α : Type} {g : α → α} {S : Reading α}

theorem Named.moves {make : Token → α} (hmake : ∀ t, make (t.mapPosition f) = g (make t)) :
    (Named make).Moves f g := by
  intro a n ts us h
  cases h with
  | mk hkind =>
      rw [← hmake, List.map_cons]
      exact .mk hkind

theorem Optionally.moves {k : Kind} (hS : S.Moves f g) :
    (Optionally k S).Moves f (Option.map g) := by
  intro a n ts us h
  cases h with
  | none => exact .none
  | some hkind hpart => exact .some hkind (hS hpart)

theorem Separated.moves (hS : S.Moves f g) : (Separated S).Moves f (List.map g) := by
  intro as n ts us h
  induction h with
  | last hpart => exact .last (hS hpart)
  | more hpart hcomma _ ih => exact .more (hS hpart) hcomma ih

theorem Listed.moves (hS : S.Moves f g) : (Listed S).Moves f (List.map g) := by
  intro as n ts us h
  cases h with
  | none => exact .none
  | some hparts => exact .some (Separated.moves hS hparts)

end

@[simp] theorem Expr.position_mapPositions (e : Expr) :
    (e.mapPositions f).position = f e.position := by
  cases e <;> rfl

theorem Expr.ofToken_mapPosition (t : Token) :
    ofToken (t.mapPosition f) = (ofToken t).map (Expr.mapPositions f) := by
  unfold ofToken Token.mapPosition
  dsimp only
  split <;> first | rfl | (split <;> first | rfl | (split <;> rfl))

def Phrase.mapPositions : Phrase → Phrase
  | tier p e => tier p (e.mapPositions f)
  | nested p e => nested p (e.mapPositions f)
  | suffixed e => suffixed (e.mapPositions f)
  | list es => list (es.map (Expr.mapPositions f))
  | items es => items (es.map (Expr.mapPositions f))

variable {f}

theorem Phrase.Reads.moved {ph : Phrase} {n : Nat} {ts us : List Token} (h : ph.Reads n ts us) :
    (ph.mapPositions f).Reads n (ts.map (Token.mapPosition f)) (us.map (Token.mapPosition f)) := by
  induction h with
  | nested _ ih => exact .nested ih
  | looser _ ih => exact .looser ih
  | @binary op t l r _ _ _ _ _ _ hop _ ihl ihr =>
      rw [mapPositions, Expr.mapPositions, ← l.position_mapPositions f]
      exact .binary ihl hop ihr
  | unary hop _ ih => exact .unary (Token.kind_moved hop) ih
  | operand _ ih => exact .operand ih
  | primary h => exact .primary (by rw [Expr.ofToken_mapPosition, h]; rfl)
  | group hopen _ hclose ih => exact .group hopen ih hclose
  | array hopen _ hclose ih =>
      rw [mapPositions, Expr.mapPositions, Expr.mapAllPositions_eq_map]
      exact .array (Token.kind_moved hopen) ih hclose
  | @call _ _ e _ _ _ _ _ _ _ hopen _ hclose ihl ihr =>
      rw [mapPositions, Expr.mapPositions, Expr.mapAllPositions_eq_map,
        ← e.position_mapPositions f]
      exact .call ihl hopen ihr hclose
  | @subscript _ _ e _ _ _ _ _ _ _ hopen _ hclose ihl ihr =>
      rw [mapPositions, Expr.mapPositions, ← e.position_mapPositions f]
      exact .subscript ihl hopen ihr hclose
  | @member _ u e _ _ _ _ hdot hname ih =>
      rw [mapPositions, Expr.mapPositions, ← e.position_mapPositions f]
      exact .member (u := u.mapPosition f) ih hdot hname
  | last _ ih => exact .last ih
  | more _ hcomma _ ihl ihr => exact .more ihl hcomma ihr
  | none => exact .none
  | some _ ih => exact .some ih

theorem Expr.Reads.moves : Reading.Moves f (Expr.mapPositions f) Expr.Reads :=
  fun _ _ _ _ h ↦ Phrase.Reads.moved h

theorem TypeRef.Reads.moves : Reading.Moves f (TypeRef.mapPositions f) TypeRef.Reads :=
  Named.moves fun _ ↦ rfl

theorem Named.moves_lexeme : (Named Token.lexeme).Moves f id :=
  Named.moves fun _ ↦ rfl

theorem Parameter.Reads.moves : Reading.Moves f (Parameter.mapPositions f) Parameter.Reads := by
  intro p n ts us h
  cases h with
  | mk hname htype hdefault =>
      exact .mk (Token.kind_moved hname) (Optionally.moves TypeRef.Reads.moves htype)
        (Optionally.moves Expr.Reads.moves hdefault)

theorem Stmt.Simple.moves : Reading.Moves f (Stmt.mapPositions f) Stmt.Simple := by
  intro s n ts us h
  cases h with
  | @expression t e n ts us h => exact .expression (t := t.mapPosition f) (Expr.Reads.moves h)
  | @assignment t u _ _ _ _ _ _ _ _ htarget hop hvalue =>
      exact .assignment (t := t.mapPosition f) (u := u.mapPosition f) (Expr.Reads.moves htarget)
        hop (Expr.Reads.moves hvalue)
  | @binding t u _ _ _ _ _ _ _ hkind hname htype hvalue =>
      exact .binding (t := t.mapPosition f) (u := u.mapPosition f) hkind hname
        (Optionally.moves TypeRef.Reads.moves htype) (Optionally.moves Expr.Reads.moves hvalue)
  | returning hkind => exact .returning (Token.kind_moved hkind)
  | returningValue hkind h => exact .returningValue (Token.kind_moved hkind) (Expr.Reads.moves h)
  | breaking hkind => exact .breaking (Token.kind_moved hkind)
  | continuing hkind => exact .continuing (Token.kind_moved hkind)
  | pass hkind => exact .pass (Token.kind_moved hkind)
  | importing hkind hmodule hlocal =>
      have hlocal := Optionally.moves (Named.moves_lexeme (f := f)) hlocal
      rw [Option.map_id] at hlocal
      exact .importing (Token.kind_moved hkind) (Token.kind_moved hmodule) hlocal
  | fromImport hkind hmodule himport hitems hlocal =>
      have hitems := Separated.moves (Named.moves_lexeme (f := f)) hitems
      have hlocal := Optionally.moves (Named.moves_lexeme (f := f)) hlocal
      rw [List.map_id] at hitems
      rw [Option.map_id] at hlocal
      exact .fromImport (Token.kind_moved hkind) (Token.kind_moved hmodule)
        (Token.kind_moved himport) hitems hlocal

theorem Breaks.moved {ts us : List Token} (h : Breaks ts us) :
    Breaks (ts.map (Token.mapPosition f)) (us.map (Token.mapPosition f)) := by
  induction h with
  | refl ts => exact .refl _
  | cons hkind _ ih => exact .cons hkind ih

theorem Stmt.EndsBefore.moved {s : Stmt} {k : Kind} (h : s.EndsBefore k) :
    (s.mapPositions f).EndsBefore k := by
  cases s with
  | varDecl _ _ _ type value =>
      cases value with
      | none =>
          cases type with
          | none => exact h
          | some _ => exact ⟨h.1, nofun⟩
      | some _ => exact h
  | returning _ value => cases value <;> exact h
  | importing _ _ _ localName => cases localName <;> exact h
  | conditional _ _ o => cases o <;> exact h
  | _ => exact h

def Part.mapPositions (f : Position → Position) : Part → Part
  | stmt s => stmt (s.mapPositions f)
  | stmts ss => stmts (ss.map (Stmt.mapPositions f))
  | block b => block (b.mapPositions f)
  | body b => body (b.mapPositions f)
  | branches bs => branches (bs.map (Branch.mapPositions f))
  | otherwise o => otherwise (o.map (Block.mapPositions f))

theorem Part.Reads.moved {mode : Mode} {part : Part} {n : Nat} {ts us : List Token}
    (h : part.Reads (.exact mode) n ts us) : (part.mapPositions f).Reads (.exact mode) n
      (ts.map (Token.mapPosition f)) (us.map (Token.mapPosition f)) := by
  induction h with
  | @simple s n ts us h hends =>
      refine .simple (Stmt.Simple.moves h) ?_
      show (s.mapPositions f).EndsBefore _
      rw [firstKind_map_mapPosition]
      exact Stmt.EndsBefore.moved hends
  | function hkind hname hopen hparameters hclose hreturns _ ih =>
      exact .function (Token.kind_moved hkind) (Token.kind_moved hname) (Token.kind_moved hopen)
        (Listed.moves Parameter.Reads.moves hparameters) hclose
        (Optionally.moves TypeRef.Reads.moves hreturns) ih
  | @conditional t bs o _ _ _ _ _ hkind _ _ ihl ihr =>
      rw [mapPositions]
      cases o with
      | none =>
          rw [Stmt.mapPositions, Branch.mapAllPositions_eq_map]
          exact .conditional (Token.kind_moved hkind) ihl ihr
      | some b =>
          rw [Stmt.mapPositions, Branch.mapAllPositions_eq_map]
          exact .conditional (Token.kind_moved hkind) ihl ihr
  | whileLoop hkind hcondition _ ih =>
      exact .whileLoop (Token.kind_moved hkind) (Expr.Reads.moves hcondition) ih
  | forLoop hkind hname hin hiterable _ ih =>
      exact .forLoop (Token.kind_moved hkind) (Token.kind_moved hname) (Token.kind_moved hin)
        (Expr.Reads.moves hiterable) ih
  | classDecl hkind hname _ ih =>
      exact .classDecl (Token.kind_moved hkind) (Token.kind_moved hname) ih
  | branch hcondition _ ih => exact .branch (Expr.Reads.moves hcondition) ih
  | elif hcondition _ hkind _ ihl ihr =>
      exact .elif (Expr.Reads.moves hcondition) ihl hkind ihr
  | noElse => exact .noElse
  | «else» hkind _ ih => exact .else (Token.kind_moved hkind) ih
  | body hcolon hgap _ ih => exact .body (Token.kind_moved hcolon) (Breaks.moved hgap) ih
  | @braced t u ss _ _ _ _ _ hopen hgap _ hclose hafter ih =>
      rw [mapPositions, Block.mapPositions, Stmt.mapAllPositions_eq_map]
      exact .braced (Token.kind_moved hopen) (Breaks.moved hgap) ih hclose (Breaks.moved hafter)
  | indented hopen _ hclose ih =>
      rw [mapPositions, Block.mapPositions, Stmt.mapAllPositions_eq_map]
      exact .indented (Token.kind_moved hopen) ih hclose
  | unclosed hmode hopen _ hend ih =>
      rw [mapPositions, Block.mapPositions, Stmt.mapAllPositions_eq_map]
      exact .unclosed hmode (Token.kind_moved hopen) ih (by rwa [firstKind_map_mapPosition])
  | nil => exact .nil
  | cons hbefore _ hafter _ ihl ihr =>
      exact .cons (Breaks.moved hbefore) ihl (Breaks.moved hafter) ihr

end Offside
