import Offside.Proofs.Parse.CompleteExpression
import Offside.Proofs.Parse.Statement

/-!
# Simple statements are parsed

The first token of a statement decides which parser it gets. A simple statement is then parsed as
what the grammar reads, given room for its levels and a token after it that does not go on with
it.
-/

namespace Offside

theorem Breaks.skipBreaks_eq {ts us : List Token} (h : Breaks ts us) :
    skipBreaks ts = skipBreaks us := by
  induction h with
  | refl _ => rfl
  | cons hkind _ ih => rw [skipBreaks_cons_of_eq hkind, ih]

theorem Breaks.eq_of_ne {ts us : List Token} (h : Breaks ts us)
    (hkind : firstKind ts ≠ .newline) : us = ts := by
  cases h with
  | refl _ => rfl
  | cons hnewline _ => exact absurd hnewline hkind

theorem firstKind_skipBreaks_ne (ts : List Token) : firstKind (skipBreaks ts) ≠ .newline := by
  induction ts with
  | nil => exact nofun
  | cons t ts ih =>
      by_cases h : t.kind = .newline
      · rwa [skipBreaks_cons_of_eq h]
      · rwa [skipBreaks_cons_of_ne h]

theorem skipBreaks_of_firstKind_ne {ts : List Token} (h : firstKind ts ≠ .newline) :
    skipBreaks ts = ts := by
  cases ts with
  | nil => rfl
  | cons t ts => exact skipBreaks_cons_of_ne h ts

/-- A statement starts with a token of such a kind. -/
def Kind.StartsStmt (k : Kind) : Prop :=
  k.statementForm?.isSome ∨ k.StartsExpr

theorem Kind.StartsExpr.statementForm? {k : Kind} (h : k.StartsExpr) : k.statementForm? = none := by
  cases k with
  | keyword k => cases k <;> first | rfl | simp [StartsExpr, atomForm?, unaryOp?] at h
  | _ => rfl

theorem Expr.Reads.starts {e : Expr} {n : Nat} {ts us : List Token} (h : e.Reads n ts us) :
    (firstKind ts).StartsExpr := by
  obtain ⟨t, vs, rfl, hstart⟩ := h.exists_cons nofun
  exact hstart

theorem Stmt.Simple.starts {s : Stmt} {n : Nat} {ts us : List Token} (h : s.Simple n ts us) :
    (firstKind ts).StartsStmt := by
  cases h with
  | expression h => exact .inr (Expr.Reads.starts h)
  | assignment htarget _ _ => exact .inr (Expr.Reads.starts htarget)
  | binding hkind _ _ _ =>
      left
      rcases hkind with hkind | hkind <;> rw [firstKind_cons, hkind] <;> rfl
  | returning hkind | returningValue hkind _ | breaking hkind | continuing hkind | pass hkind
  | importing hkind _ _ | fromImport hkind _ _ _ _ =>
      left
      rw [firstKind_cons, hkind]
      rfl

namespace Parse

theorem identifier_bind_cons {β : Type} {t : Token} (h : t.kind = .identifier)
    (f : String → Parse β) (c : Cursor) (us : List Token) :
    (identifier >>= f) (c.facing (t :: us)) = f t.lexeme (c.facing us) :=
  bind_of_ok (bind_of_ok (expect_cons h c us))

theorem identifier_needs {c : Cursor} {r n : Nat} {ts us : List Token} {name : String}
    (h : Named Token.lexeme name n ts us) :
    Needs c.limit r n (identifier (c.facing ts)) (.ok name (c.facing us)) := by
  cases h with
  | @mk t us hkind =>
      have hrun : identifier (c.facing (t :: us)) = .ok t.lexeme (c.facing us) :=
        bind_of_ok (expect_cons hkind c us)
      rw [hrun]
      exact Needs.refl _

theorem typeRef_needs {c : Cursor} {r n : Nat} {ts us : List Token} {type : TypeRef}
    (h : TypeRef.Reads type n ts us) :
    Needs c.limit r n (typeRef (c.facing ts)) (.ok type (c.facing us)) := by
  cases h with
  | mk hkind =>
      rw [typeRef, expect_bind_cons hkind]
      exact Needs.refl _

end Parse

namespace Level

open Parse

section

variable {c : Cursor} {r n : Nat} (hc : c.Fits r) {ts us : List Token}

include hc

theorem expression_needs {e : Expr} (h : e.Reads n ts us) (hstop : Stops .lowest us) :
    Needs c.limit r n ((ofRoom r).expression (c.facing ts)) (.ok e (c.facing us)) :=
  h.comes hc hstop

theorem optionalType_needs {k : Kind} {type : Option TypeRef}
    (h : Optionally k TypeRef.Reads type n ts us) (hnone : type = none → firstKind us ≠ k) :
    Needs c.limit r n (after? k typeRef (c.facing ts)) (.ok type (c.facing us)) :=
  optionally_needs hc.1 h (fun _ _ _ h ↦ typeRef_needs h) hnone

theorem optionalValue_needs {value : Option Expr}
    (h : Optionally (.mark .assign) Expr.Reads value n ts us)
    (hnone : value = none → firstKind us ≠ .mark .assign)
    (hstop : value.isSome → Stops .lowest us) :
    Needs c.limit r n (after? (.mark .assign) (ofRoom r).expression (c.facing ts))
      (.ok value (c.facing us)) := by
  apply optionally_needs hc.1 h ?_ hnone
  rintro e ts' rfl he
  exact expression_needs hc he (hstop rfl)

theorem localName_needs {name : Option String}
    (h : Optionally (.keyword .asKw) (Named Token.lexeme) name n ts us)
    (hnone : name = none → firstKind us ≠ .keyword .asKw) :
    Needs c.limit r n (localName? (c.facing ts)) (.ok name (c.facing us)) :=
  optionally_needs hc.1 h (fun _ _ _ h ↦ identifier_needs h) hnone

theorem parameter_needs {p : Parameter} (h : Parameter.Reads p n ts us)
    (hus : firstKind us = .mark .comma ∨ firstKind us = .mark .closeParen) :
    Needs c.limit r n ((ofRoom r).parameter (c.facing ts)) (.ok p (c.facing us)) := by
  have hstop : Stops .lowest us := by
    rcases hus with hus | hus
    · exact Phrase.stops_of_kind hus (by decide)
    · exact Phrase.stops_of_kind hus (by decide)
  cases h with
  | @mk t type default n m ts vs us hname htype hdefault =>
      rw [parameter, position_bind, identifier_bind_cons hname]
      have hcolon : firstKind vs ≠ .mark .colon := by
        cases hdefault with
        | none => rcases hus with hus | hus <;> rw [hus] <;> decide
        | some hassign _ =>
            rw [firstKind_cons, hassign]
            decide
      have hassign : firstKind us ≠ .mark .assign := by
        rcases hus with hus | hus <;> rw [hus] <;> decide
      refine (optionalType_needs hc htype fun _ ↦ hcolon).bind_trans ?_
      exact (optionalValue_needs hc hdefault (fun _ ↦ hassign) fun _ ↦ hstop).bind_eq rfl

/-- The first token of a statement decides which statement it is. -/
theorem statement_of_form {t : Token} {form : StatementForm}
    (h : t.kind.statementForm? = some form) (l : Level) (ts : List Token) :
    l.statement (c.facing (t :: ts)) = l.formed form (c.facing (t :: ts)) := by
  have hkind : t.kind ≠ .newline := by
    intro hkind
    rw [hkind] at h
    cases h
  rw [statement, skipNewlines_bind, skipBreaks_cons_of_ne hkind, kind_bind hc.1, firstKind_cons, h]

theorem statement_of_startsExpr {ts : List Token} (h : (firstKind ts).StartsExpr) (l : Level) :
    l.statement (c.facing ts) = l.simple (c.facing ts) := by
  have hkind : firstKind ts ≠ .newline := by
    intro hkind
    rw [hkind] at h
    simp [Kind.StartsExpr, Kind.atomForm?, Kind.unaryOp?] at h
  rw [statement, skipNewlines_bind, skipBreaks_of_firstKind_ne hkind, kind_bind hc.1,
    h.statementForm?]

theorem simple_needs {s : Stmt} (h : s.Simple n ts us) (hends : s.EndsBefore (firstKind us)) :
    Needs c.limit r n ((ofRoom r).statement (c.facing ts)) (.ok s (c.facing (skipBreaks us))) := by
  cases h with
  | @expression t e _ ts us h =>
      obtain ⟨hstop, hop⟩ := hends
      rw [statement_of_startsExpr hc (Expr.Reads.starts h), simple, position_bind]
      refine (expression_needs hc h hstop).bind_eq ?_
      rw [kind_bind hc.1, hop]
      rfl
  | @assignment t u target value op n m ts us vs htarget hop hvalue =>
      rw [statement_of_startsExpr hc (Expr.Reads.starts htarget), simple, position_bind]
      have hstop : Stops .lowest (u :: us) :=
        Phrase.stops_of_kind (firstKind_cons u us ▸ hop) (by cases op <;> decide)
      refine (expression_needs hc htarget hstop).bind_trans ?_
      rw [kind_bind hc.1, firstKind_cons, Kind.assignOp?_eq_some_iff.mpr hop]
      dsimp only
      rw [discard_bind, advance_bind_cons]
      exact (expression_needs hc hvalue hends).bind_eq rfl
  | @binding t u type value n m ts vs us hkind hname htype hvalue =>
      have hform : t.kind.statementForm? = some .binding := by
        rcases hkind with hkind | hkind <;> rw [hkind] <;> rfl
      have hcolon : type = none → firstKind vs ≠ .mark .colon := by
        intro hnone
        cases hvalue with
        | none => exact hends.2 hnone
        | some hassign _ =>
            rw [firstKind_cons, hassign]
            decide
      rw [statement_of_form hc hform, formed, binding, advance_bind_cons,
        identifier_bind_cons hname]
      refine (optionalType_needs hc htype hcolon).bind_trans ?_
      refine (optionalValue_needs hc hvalue ?_ ?_).bind_eq rfl
      · rintro rfl
        exact hends.1
      · intro hsome
        obtain ⟨e, rfl⟩ := Option.isSome_iff_exists.mp hsome
        exact hends
  | @returning t ts hkind =>
      rw [statement_of_form hc (by rw [hkind]; rfl), formed, Level.returning,
        expect_bind_cons hkind, kind_bind hc.1, if_pos (by simpa [Stmt.EndsBefore] using hends)]
      exact Needs.refl _
  | @returningValue t e n ts us hkind h =>
      obtain ⟨u, vs, rfl, hstart⟩ := h.exists_cons (by simp)
      have hvalue : ¬(u.kind = .newline ∨ u.kind = .eof) := by
        rintro (hu | hu) <;> simp [Phrase.Starts, hu, Kind.StartsExpr, Kind.atomForm?,
          Kind.unaryOp?] at hstart
      rw [statement_of_form hc (by rw [hkind]; rfl), formed, Level.returning,
        expect_bind_cons hkind, kind_bind hc.1, firstKind_cons, if_neg (by simpa using hvalue),
        Parse.map_bind]
      exact (expression_needs hc h hends).bind_eq rfl
  | @breaking t ts hkind | @continuing t ts hkind | @pass t ts hkind =>
      rw [statement_of_form hc (by rw [hkind]; rfl), formed, word, advance_bind_cons,
        skipNewlines_bind, hkind]
      exact Needs.refl _
  | @importing t u localName n ts us hkind hmodule hlocal =>
      rw [statement_of_form hc (by rw [hkind]; rfl), formed, Parse.importing,
        expect_bind_cons hkind, identifier_bind_cons hmodule]
      refine (localName_needs hc hlocal ?_).bind_eq rfl
      rintro rfl
      exact hends.1
  | @fromImport t u v items localName n m ts vs us hkind hmodule himport hitems hlocal =>
      have hcomma : firstKind vs ≠ .mark .comma := by
        cases hlocal with
        | none => exact hends.2 rfl
        | some has _ =>
            rw [firstKind_cons, has]
            decide
      have hproper : c.Proper c.mode := ⟨hc.1, rfl⟩
      have hnames := Sound.advances (r := 0) identifier_sound (Named.consumes _) hproper
        fun _ ↦ true
      rw [statement_of_form hc (by rw [hkind]; rfl), formed, Parse.fromImport,
        expect_bind_cons hkind, identifier_bind_cons hmodule, discard_bind,
        expect_bind_cons himport]
      refine (separated_needs (F := fun _ ↦ True) hc.1 hnames
        (fun _ _ _ _ h _ ↦ identifier_needs h) (fun _ _ _ ↦ trivial) hitems trivial
        hcomma).bind_trans ?_
      refine (localName_needs hc hlocal ?_).bind_eq rfl
      rintro rfl
      exact hends.1

end

end Level

end Offside
