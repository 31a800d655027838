import Offside.Grammar.Statement
import Offside.Proofs.Grammar.Phrase

/-!
# The grammar of statements

Simple statements are rows of names, expressions and optional parts. Compound statements end in
bodies, and the statements of a block stand one after the other. A layout says where line breaks
may stand and what is known of the tokens after a simple statement. So one grammar serves the
reading of tokens without their line breaks, the writing of programs, and what exactly a parser
accepts.
-/

namespace Offside

/-- Some line breaks are passed over. -/
inductive Breaks : List Token → List Token → Prop
  | refl (ts : List Token) : Breaks ts ts
  | cons {t : Token} {ts us : List Token} (hkind : t.kind = .newline) (h : Breaks ts us) :
      Breaks (t :: ts) us

theorem Breaks.trans {ts us vs : List Token} (h : Breaks ts us) (h' : Breaks us vs) :
    Breaks ts vs := by
  induction h with
  | refl _ => exact h'
  | cons hkind _ ih => exact .cons hkind (ih h')

theorem Breaks.suffix {ts us : List Token} (h : Breaks ts us) : us <:+ ts := by
  induction h with
  | refl _ => exact List.suffix_rfl
  | cons _ _ ih => exact ih.trans (List.suffix_cons _ _)

/-- A token of kind `k` after the statement would not be read as part of it. -/
def Stmt.EndsBefore : Stmt → Kind → Prop
  | .expression _ _, k => k.Ends .lowest ∧ k.assignOp? = none
  | .assignment _ _ _ _, k => k.Ends .lowest
  | .varDecl _ _ _ _ (some _), k => k.Ends .lowest
  | .varDecl _ _ _ type none, k => k ≠ .mark .assign ∧ (type = none → k ≠ .mark .colon)
  | .returning _ (some _), k => k.Ends .lowest
  | .returning _ none, k => k = .newline ∨ k = .eof
  | .importing _ _ items none, k => k ≠ .keyword .asKw ∧ (items.isSome → k ≠ .mark .comma)
  | _, _ => True

/-- Layout ends a statement, but a `return` alone only if it is a line break or the end mark. -/
theorem Stmt.endsBefore_of_not_isInk {k : Kind} (s : Stmt) (hk : ¬ k.IsInk)
    (h : (∀ p, s ≠ .returning p none) ∨ k = .newline ∨ k = .eof) : s.EndsBefore k := by
  have hends (p : Precedence) : k.Ends p := by
    cases k with
    | newline | indent | dedent | eof => exact ⟨rfl, rfl⟩
    | _ => exact absurd trivial hk
  have hne {j : Kind} (hj : j.IsInk) : k ≠ j := by
    rintro rfl
    exact hk hj
  cases s with
  | expression _ _ =>
      refine ⟨hends _, ?_⟩
      cases k with
      | newline | indent | dedent | eof => rfl
      | _ => exact absurd trivial hk
  | assignment _ _ _ _ => exact hends _
  | varDecl _ _ _ _ value =>
      cases value with
      | none => exact ⟨hne trivial, fun _ ↦ hne trivial⟩
      | some _ => exact hends _
  | returning p value =>
      cases value with
      | none => exact h.resolve_left fun h ↦ h p rfl
      | some _ => exact hends _
  | importing _ _ _ localName =>
      cases localName with
      | none => exact ⟨hne trivial, fun _ ↦ hne trivial⟩
      | some _ => trivial
  | _ => trivial

structure Layout where
  mode : Mode
  /-- What may be passed over around statements and next to braces. -/
  gap : List Token → List Token → Prop
  /-- What is known of the tokens after a simple statement. -/
  ends : Stmt → List Token → Prop

namespace Layout

/-- No line breaks, and nothing known of what follows. -/
def bare (mode : Mode) : Layout :=
  ⟨mode, fun ts us ↦ ts = us, fun _ _ ↦ True⟩

/-- Line breaks around statements and next to braces. -/
def lines (mode : Mode) : Layout :=
  ⟨mode, Breaks, fun _ _ ↦ True⟩

/-- The same, where no statement could have been longer. -/
def exact (mode : Mode) : Layout :=
  ⟨mode, Breaks, fun s ts ↦ s.EndsBefore (firstKind ts)⟩

/-- The same, where a line break follows every simple statement and every block is closed. -/
def written : Layout :=
  ⟨.strict, Breaks, fun _ ts ↦ firstKind ts = .newline⟩

end Layout

/-- A type is the name of one. -/
abbrev TypeRef.Reads : Reading TypeRef :=
  Named fun t ↦ ⟨t.lexeme, false, t.position⟩

inductive Parameter.Reads : Reading Parameter
  | mk {t : Token} {type : Option TypeRef} {default : Option Expr} {n m : Nat}
      {ts us vs : List Token} (hname : t.kind = .identifier)
      (htype : Optionally (.mark .colon) TypeRef.Reads type n ts us)
      (hdefault : Optionally (.mark .assign) Expr.Reads default m us vs) :
      Parameter.Reads ⟨t.lexeme, type, default, t.position⟩ (max n m) (t :: ts) vs

/-- The statements without a body. -/
inductive Stmt.Simple : Reading Stmt
  | expression {t : Token} {e : Expr} {n : Nat} {ts us : List Token}
      (h : e.Reads n (t :: ts) us) : Simple (.expression t.position e) n (t :: ts) us
  | assignment {t u : Token} {target value : Expr} {op : AssignOp} {n m : Nat}
      {ts us vs : List Token} (htarget : target.Reads n (t :: ts) (u :: us))
      (hop : u.kind = op.kind) (hvalue : value.Reads m us vs) :
      Simple (.assignment t.position target op value) (max n m) (t :: ts) vs
  | binding {t u : Token} {type : Option TypeRef} {value : Option Expr} {n m : Nat}
      {ts us vs : List Token} (hkind : t.kind = .keyword .letKw ∨ t.kind = .keyword .constKw)
      (hname : u.kind = .identifier)
      (htype : Optionally (.mark .colon) TypeRef.Reads type n ts us)
      (hvalue : Optionally (.mark .assign) Expr.Reads value m us vs) :
      Simple (.varDecl t.position u.lexeme (t.kind = .keyword .constKw) type value) (max n m)
        (t :: u :: ts) vs
  | returning {t : Token} {ts : List Token} (hkind : t.kind = .keyword .returnKw) :
      Simple (.returning t.position none) 0 (t :: ts) ts
  | returningValue {t : Token} {e : Expr} {n : Nat} {ts us : List Token}
      (hkind : t.kind = .keyword .returnKw) (h : e.Reads n ts us) :
      Simple (.returning t.position (some e)) n (t :: ts) us
  | breaking {t : Token} {ts : List Token} (hkind : t.kind = .keyword .breakKw) :
      Simple (.breaking t.position) 0 (t :: ts) ts
  | continuing {t : Token} {ts : List Token} (hkind : t.kind = .keyword .continueKw) :
      Simple (.continuing t.position) 0 (t :: ts) ts
  | pass {t : Token} {ts : List Token} (hkind : t.kind = .keyword .passKw) :
      Simple (.pass t.position) 0 (t :: ts) ts
  | importing {t u : Token} {localName : Option String} {n : Nat} {ts us : List Token}
      (hkind : t.kind = .keyword .importKw) (hmodule : u.kind = .identifier)
      (hlocal : Optionally (.keyword .asKw) (Named Token.lexeme) localName n ts us) :
      Simple (.importing t.position u.lexeme none localName) n (t :: u :: ts) us
  | fromImport {t u v : Token} {items : List String} {localName : Option String} {n m : Nat}
      {ts us vs : List Token} (hkind : t.kind = .keyword .fromKw)
      (hmodule : u.kind = .identifier) (himport : v.kind = .keyword .importKw)
      (hitems : Separated (Named Token.lexeme) items n ts us)
      (hlocal : Optionally (.keyword .asKw) (Named Token.lexeme) localName m us vs) :
      Simple (.importing t.position u.lexeme (some items) localName) (max n m)
        (t :: u :: v :: ts) vs

/-- What the grammar reads in a program besides expressions. -/
inductive Part where
  | stmt (s : Stmt)
  | stmts (ss : List Stmt)
  | block (b : Block)
  /-- A colon and a block. -/
  | body (b : Block)
  /-- A branch or more, with `elif` between them. -/
  | branches (bs : List Branch)
  | otherwise (b : Option Block)

/-- A block opens a level. -/
inductive Part.Reads (L : Layout) : Part → Nat → List Token → List Token → Prop
  | simple {s : Stmt} {n : Nat} {ts us : List Token} (h : s.Simple n ts us)
      (hends : L.ends s us) : (stmt s).Reads L n ts us
  | function {t u v w : Token} {parameters : List Parameter} {returns : Option TypeRef}
      {b : Block} {n m k : Nat} {ts us vs ws : List Token} (hkind : t.kind = .keyword .defKw)
      (hname : u.kind = .identifier) (hopen : v.kind = .mark .openParen)
      (hparameters : Listed Parameter.Reads parameters n ts (w :: us))
      (hclose : w.kind = .mark .closeParen)
      (hreturns : Optionally (.mark .arrow) TypeRef.Reads returns m us vs)
      (hbody : (body b).Reads L k vs ws) :
      (stmt (.fnDecl t.position u.lexeme parameters returns b)).Reads L (max n (max m k))
        (t :: u :: v :: ts) ws
  | conditional {t : Token} {bs : List Branch} {o : Option Block} {n m : Nat}
      {ts us vs : List Token} (hkind : t.kind = .keyword .ifKw)
      (hbranches : (branches bs).Reads L n ts us) (hotherwise : (otherwise o).Reads L m us vs) :
      (stmt (.conditional t.position bs o)).Reads L (max n m) (t :: ts) vs
  | whileLoop {t : Token} {e : Expr} {b : Block} {n m : Nat} {ts us vs : List Token}
      (hkind : t.kind = .keyword .whileKw) (hcondition : e.Reads n ts us)
      (hbody : (body b).Reads L m us vs) :
      (stmt (.whileLoop t.position e b)).Reads L (max n m) (t :: ts) vs
  | forLoop {t u v : Token} {e : Expr} {b : Block} {n m : Nat} {ts us vs : List Token}
      (hkind : t.kind = .keyword .forKw) (hname : u.kind = .identifier)
      (hin : v.kind = .keyword .inKw) (hiterable : e.Reads n ts us)
      (hbody : (body b).Reads L m us vs) :
      (stmt (.forLoop t.position u.lexeme e b)).Reads L (max n m) (t :: u :: v :: ts) vs
  | classDecl {t u : Token} {b : Block} {n : Nat} {ts us : List Token}
      (hkind : t.kind = .keyword .classKw) (hname : u.kind = .identifier)
      (hbody : (body b).Reads L n ts us) :
      (stmt (.classDecl t.position u.lexeme b)).Reads L n (t :: u :: ts) us
  | branch {e : Expr} {b : Block} {n m : Nat} {ts us vs : List Token}
      (hcondition : e.Reads n ts us) (hbody : (body b).Reads L m us vs) :
      (branches [⟨e, b⟩]).Reads L (max n m) ts vs
  | elif {t : Token} {e : Expr} {b : Block} {bs : List Branch} {n m k : Nat}
      {ts us vs ws : List Token} (hcondition : e.Reads n ts us)
      (hbody : (body b).Reads L m us (t :: vs)) (hkind : t.kind = .keyword .elifKw)
      (hothers : (branches bs).Reads L k vs ws) :
      (branches (⟨e, b⟩ :: bs)).Reads L (max (max n m) k) ts ws
  | noElse {ts : List Token} : (otherwise none).Reads L 0 ts ts
  | else {t : Token} {b : Block} {n : Nat} {ts us : List Token}
      (hkind : t.kind = .keyword .elseKw) (hbody : (body b).Reads L n ts us) :
      (otherwise (some b)).Reads L n (t :: ts) us
  | body {t : Token} {b : Block} {n : Nat} {ts us vs : List Token}
      (hcolon : t.kind = .mark .colon) (hgap : L.gap ts us) (h : (block b).Reads L n us vs) :
      (body b).Reads L n (t :: ts) vs
  | braced {t u : Token} {ss : List Stmt} {n : Nat} {ts us vs ws : List Token}
      (hopen : t.kind = .mark .openCurly) (hgap : L.gap ts us)
      (h : (stmts ss).Reads L n us (u :: vs)) (hclose : u.kind = .mark .closeCurly)
      (hafter : L.gap vs ws) : (block ⟨t.position, ss⟩).Reads L (n + 1) (t :: ts) ws
  | indented {t u : Token} {ss : List Stmt} {n : Nat} {ts us : List Token}
      (hopen : t.kind = .indent) (h : (stmts ss).Reads L n ts (u :: us))
      (hclose : u.kind = .dedent) : (block ⟨t.position, ss⟩).Reads L (n + 1) (t :: ts) us
  /-- Lenient parsing closes an indented block at the end. -/
  | unclosed {t : Token} {ss : List Stmt} {n : Nat} {ts us : List Token}
      (hmode : L.mode = .lenient) (hopen : t.kind = .indent)
      (h : (stmts ss).Reads L n ts us) (hend : firstKind us = .eof) :
      (block ⟨t.position, ss⟩).Reads L (n + 1) (t :: ts) us
  | nil {ts : List Token} : (stmts []).Reads L 0 ts ts
  | cons {s : Stmt} {ss : List Stmt} {n m : Nat} {ts us vs ws xs : List Token}
      (hbefore : L.gap ts us) (h : (stmt s).Reads L n us vs) (hafter : L.gap vs ws)
      (hothers : (stmts ss).Reads L m ws xs) : (stmts (s :: ss)).Reads L (max n m) ts xs

/-- A program starts where its source starts and leaves nothing over. -/
def Program.Reads (L : Layout) (p : Program) (n : Nat) (ts : List Token) : Prop :=
  p.position = .start ∧ ∃ us, L.gap ts us ∧ (Part.stmts p.body).Reads L n us []

theorem Parameter.Reads.shrinks : Reading.Shrinks Parameter.Reads := by
  intro p n ts us h
  cases h with
  | mk _ htype hdefault =>
      have htype := Optionally.shrinks (Named.shrinks _) htype
      have hdefault := Optionally.shrinks (Phrase.nested_shrinks _) hdefault
      exact (hdefault.trans htype).trans (List.suffix_cons _ _)

theorem Parameter.Reads.consumes : Reading.Consumes Parameter.Reads := by
  intro p n ts us h
  cases h with
  | mk _ htype hdefault =>
      have htype := Optionally.shrinks (Named.shrinks _) htype
      have hdefault := Optionally.shrinks (Phrase.nested_shrinks _) hdefault
      exact Nat.lt_succ_of_le (hdefault.trans htype).length_le

/-- A simple statement starts with a token of its own. -/
theorem Stmt.Simple.exists_cons {s : Stmt} {n : Nat} {ts us : List Token}
    (h : s.Simple n ts us) : ∃ t vs, ts = t :: vs ∧ us <:+ vs := by
  have hname : ∀ {k : Kind} {name : Option String} {n : Nat} {ts us : List Token},
      Optionally k (Named Token.lexeme) name n ts us → us <:+ ts :=
    fun h ↦ Optionally.shrinks (Named.shrinks _) h
  cases h with
  | expression h =>
      obtain ⟨used, hused⟩ := h.suffix
      cases used with
      | nil => exact absurd (hused ▸ h.length_lt nofun) (Nat.lt_irrefl _)
      | cons t' used => exact ⟨_, _, rfl, used, (List.cons.inj hused).2⟩
  | assignment htarget _ hvalue =>
      obtain ⟨used, hused⟩ := htarget.suffix
      cases used with
      | nil => exact absurd (hused ▸ htarget.length_lt nofun) (Nat.lt_irrefl _)
      | cons t' used =>
          have hsuffix : _ <:+ _ := ⟨used, (List.cons.inj hused).2⟩
          exact ⟨_, _, rfl, (hvalue.suffix.trans (List.suffix_cons _ _)).trans hsuffix⟩
  | binding _ _ htype hvalue =>
      have htype := Optionally.shrinks (Named.shrinks _) htype
      have hvalue := Optionally.shrinks (Phrase.nested_shrinks _) hvalue
      exact ⟨_, _, rfl, (hvalue.trans htype).trans (List.suffix_cons _ _)⟩
  | returning _ | breaking _ | continuing _ | pass _ => exact ⟨_, _, rfl, List.suffix_rfl⟩
  | returningValue _ h => exact ⟨_, _, rfl, h.suffix⟩
  | importing _ _ hlocal => exact ⟨_, _, rfl, (hname hlocal).trans (List.suffix_cons _ _)⟩
  | fromImport _ _ _ hitems hlocal =>
      have hitems := Separated.shrinks (Named.shrinks _) hitems
      exact ⟨_, _, rfl, (((hname hlocal).trans hitems).trans (List.suffix_cons _ _)).trans
        (List.suffix_cons _ _)⟩

namespace Part

/-- Everything but a list of statements and the part after the branches. -/
def Nonempty : Part → Prop
  | stmts _ | otherwise _ => False
  | _ => True

variable {L : Layout} (hgap : ∀ ts us, L.gap ts us → us <:+ ts)

include hgap

theorem Reads.suffix {part : Part} {n : Nat} {ts us : List Token} (h : part.Reads L n ts us) :
    us <:+ ts := by
  induction h with
  | simple h _ =>
      obtain ⟨t, vs, rfl, hsuffix⟩ := h.exists_cons
      exact hsuffix.trans (List.suffix_cons _ _)
  | function _ _ _ hparameters _ hreturns _ ih =>
      have hparameters := Listed.shrinks Parameter.Reads.shrinks hparameters
      have hreturns := Optionally.shrinks (Named.shrinks _) hreturns
      have h := ((ih.trans hreturns).trans (List.suffix_cons _ _)).trans hparameters
      exact ((h.trans (List.suffix_cons _ _)).trans (List.suffix_cons _ _)).trans
        (List.suffix_cons _ _)
  | conditional _ _ _ ihl ihr => exact (ihr.trans ihl).trans (List.suffix_cons _ _)
  | whileLoop _ hcondition _ ih =>
      exact (ih.trans hcondition.suffix).trans (List.suffix_cons _ _)
  | forLoop _ _ _ hiterable _ ih =>
      exact (((ih.trans hiterable.suffix).trans (List.suffix_cons _ _)).trans
        (List.suffix_cons _ _)).trans (List.suffix_cons _ _)
  | classDecl _ _ _ ih => exact (ih.trans (List.suffix_cons _ _)).trans (List.suffix_cons _ _)
  | branch hcondition _ ih => exact ih.trans hcondition.suffix
  | elif hcondition _ _ _ ihl ihr =>
      exact ((ihr.trans (List.suffix_cons _ _)).trans ihl).trans hcondition.suffix
  | noElse | nil => exact List.suffix_rfl
  | «else» _ _ ih => exact ih.trans (List.suffix_cons _ _)
  | body _ hbreaks _ ih => exact (ih.trans (hgap _ _ hbreaks)).trans (List.suffix_cons _ _)
  | braced _ hbefore _ _ hafter ih =>
      exact ((((hgap _ _ hafter).trans (List.suffix_cons _ _)).trans ih).trans
        (hgap _ _ hbefore)).trans (List.suffix_cons _ _)
  | indented _ _ _ ih =>
      exact ((List.suffix_cons _ _).trans ih).trans (List.suffix_cons _ _)
  | unclosed _ _ _ _ ih => exact ih.trans (List.suffix_cons _ _)
  | cons hbefore _ hafter _ ihl ihr =>
      exact ((ihr.trans (hgap _ _ hafter)).trans ihl).trans (hgap _ _ hbefore)

theorem Reads.length_lt {part : Part} {n : Nat} {ts us : List Token}
    (h : part.Reads L n ts us) (hpart : part.Nonempty) : us.length < ts.length := by
  cases h with
  | simple h _ =>
      obtain ⟨t, vs, rfl, hsuffix⟩ := h.exists_cons
      exact Nat.lt_succ_of_le hsuffix.length_le
  | function _ _ _ hparameters _ hreturns hbody =>
      have hparameters := (Listed.shrinks Parameter.Reads.shrinks hparameters).length_le
      have hreturns := (Optionally.shrinks (Named.shrinks _) hreturns).length_le
      have hbody := (hbody.suffix hgap).length_le
      simp only [List.length_cons] at *
      omega
  | conditional _ hbranches hotherwise =>
      exact Nat.lt_succ_of_le ((hotherwise.suffix hgap).trans (hbranches.suffix hgap)).length_le
  | whileLoop _ hcondition hbody =>
      exact Nat.lt_succ_of_le ((hbody.suffix hgap).trans hcondition.suffix).length_le
  | forLoop _ _ _ hiterable hbody =>
      have hle := ((hbody.suffix hgap).trans hiterable.suffix).length_le
      simp only [List.length_cons]
      omega
  | classDecl _ _ hbody =>
      have hle := (hbody.suffix hgap).length_le
      simp only [List.length_cons]
      omega
  | branch hcondition hbody =>
      exact (hbody.suffix hgap).length_le.trans_lt (hcondition.length_lt nofun)
  | elif hcondition hbody _ hothers =>
      have hle := ((hothers.suffix hgap).trans (List.suffix_cons _ _)).trans (hbody.suffix hgap)
      exact hle.length_le.trans_lt (hcondition.length_lt nofun)
  | noElse => exact hpart.elim
  | «else» _ _ => exact hpart.elim
  | nil => exact hpart.elim
  | cons _ _ _ _ => exact hpart.elim
  | body _ hbreaks h =>
      exact Nat.lt_succ_of_le ((h.suffix hgap).trans (hgap _ _ hbreaks)).length_le
  | braced _ hbefore h _ hafter =>
      have hle := (h.suffix hgap).length_le
      have hbefore := (hgap _ _ hbefore).length_le
      have hafter := (hgap _ _ hafter).length_le
      simp only [List.length_cons] at *
      omega
  | indented _ h _ =>
      have hle := (h.suffix hgap).length_le
      simp only [List.length_cons] at *
      omega
  | unclosed _ _ h _ => exact Nat.lt_succ_of_le (h.suffix hgap).length_le

end Part
end Offside
