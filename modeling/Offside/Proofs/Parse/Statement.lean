import Offside.Program
import Offside.Proofs.Grammar.Part
import Offside.Proofs.Parse.Expression

/-!
# Parsed programs are derived

Every statement, block and program that a parser accepts is read by the grammar, in the layout in
which no statement could have been longer. A statement may have passed over the line breaks after
it.
-/

namespace Offside

theorem breaks_skipBreaks (ts : List Token) : Breaks ts (skipBreaks ts) := by
  induction ts with
  | nil => exact .refl []
  | cons t ts ih =>
      by_cases h : t.kind = .newline
      · rw [skipBreaks_cons_of_eq h]
        exact .cons h ih
      · rw [skipBreaks_cons_of_ne h]
        exact .refl _

theorem Layout.suffix_of_exact_gap (mode : Mode) (ts us : List Token)
    (h : (Layout.exact mode).gap ts us) : us <:+ ts :=
  Breaks.suffix h

/-- A statement and perhaps line breaks after it. -/
def Stmt.Done (mode : Mode) : Reading Stmt :=
  fun s n ts us ↦ ∃ vs, (Part.stmt s).Reads (.exact mode) n ts vs ∧ Breaks vs us

/-- A statement and perhaps line breaks around it. -/
def Stmt.Item (mode : Mode) : Reading Stmt :=
  fun s n ts us ↦ ∃ vs, Breaks ts vs ∧ s.Done mode n vs us

theorem Stmt.Item.consumes (mode : Mode) : (Stmt.Item mode).Consumes := by
  rintro s n ts us ⟨vs, hbefore, ws, hs, hafter⟩
  have hlt := hs.length_lt (Layout.suffix_of_exact_gap mode) trivial
  exact (hafter.suffix.length_le.trans_lt hlt).trans_le hbefore.suffix.length_le

/-- One more branch of a conditional. -/
def Branch.AfterElif (mode : Mode) : Reading Branch :=
  fun b n ts us ↦ ∃ t ts', ts = t :: ts' ∧ t.kind = .keyword .elifKw ∧
    (Part.branches [b]).Reads (.exact mode) n ts' us

theorem Branch.AfterElif.consumes (mode : Mode) : (Branch.AfterElif mode).Consumes := by
  rintro b n - us ⟨t, ts, rfl, -, hb⟩
  exact Nat.lt_succ_of_le (hb.suffix (Layout.suffix_of_exact_gap mode)).length_le

namespace Part

variable {mode : Mode}

theorem Reads.branches_of_sequence {b : Branch} {bs : List Branch} {n m : Nat}
    {ts us vs : List Token} (hfirst : (branches [b]).Reads (.exact mode) n ts us)
    (hothers : Sequence (Branch.AfterElif mode) bs m us vs) :
    (branches (b :: bs)).Reads (.exact mode) (max n m) ts vs := by
  induction bs generalizing b n m ts us with
  | nil =>
      cases hothers with
      | nil =>
          rw [Nat.max_zero]
          exact hfirst
  | cons b' bs ih =>
      cases hothers with
      | cons hnext hothers =>
          obtain ⟨t, ts', rfl, helif, hnext⟩ := hnext
          cases hfirst with
          | branch hcondition hbody => exact .elif hcondition hbody helif (ih hnext hothers)
          | elif _ _ _ hnone => cases hnone

theorem Reads.otherwise_of_optionally {o : Option Block} {n : Nat} {ts us : List Token}
    (h : Optionally (.keyword .elseKw) (fun b ↦ (Part.body b).Reads (.exact mode)) o n ts us) :
    (otherwise o).Reads (.exact mode) n ts us := by
  cases h with
  | none => exact .noElse
  | some helse hbody => exact .else helse hbody

theorem Reads.stmts_of_sequence {ss : List Stmt} {n : Nat} {ts us : List Token}
    (h : Sequence (Stmt.Item mode) ss n ts us) : (stmts ss).Reads (.exact mode) n ts us := by
  induction h with
  | nil => exact .nil
  | cons hpart _ ih =>
      obtain ⟨vs, hbefore, ws, hs, hafter⟩ := hpart
      exact .cons hbefore hs hafter ih

end Part

namespace Parse

variable {mode : Mode} {r : Nat}

theorem typeRef_sound : Sound mode typeRef TypeRef.Reads r := by
  intro c ts type d hc h
  obtain ⟨t, us, rfl, hkind, h⟩ := exists_of_expect_bind_eq_ok hc.1 (by decide) h
  obtain ⟨rfl, rfl⟩ := eq_of_pure_eq_ok h
  exact ⟨0, us, Nat.zero_le r, .mk hkind, rfl⟩

theorem localName?_sound : Sound mode localName?
    (fun name n ts us ↦ Optionally (.keyword .asKw) (Named Token.lexeme) name n ts us ∧
      (name = none → firstKind us ≠ .keyword .asKw)) r :=
  after?_sound (by decide) identifier_sound

/-- The keywords that are whole statements. -/
theorem word_sound {c : Cursor} {ts : List Token} {s : Stmt} {d : Cursor} {k : Keyword}
    (hkind : firstKind ts = .keyword k) (hform : k.statementForm? = some .word)
    (h : word (c.facing ts) = .ok s d) :
    ∃ us, s.Done mode 0 ts us ∧ d = c.facing us := by
  obtain ⟨t, us, rfl, ht⟩ := exists_cons_of_firstKind hkind (by simp)
  have key : ∀ s' : Stmt, (Part.stmt s').Reads (.exact mode) 0 (t :: us) us →
      (pure s' : Parse Stmt) (c.facing (skipBreaks us)) = .ok s d →
        ∃ vs, s.Done mode 0 (t :: us) vs ∧ d = c.facing vs := by
    intro s' hs' h
    obtain ⟨rfl, rfl⟩ := eq_of_pure_eq_ok h
    exact ⟨skipBreaks us, ⟨us, hs', breaks_skipBreaks us⟩, rfl⟩
  rw [word, advance_bind_cons, skipNewlines_bind, ht] at h
  cases k with
  | breakKw => exact key _ (.simple (.breaking ht) trivial) h
  | continueKw => exact key _ (.simple (.continuing ht) trivial) h
  | passKw => exact key _ (.simple (.pass ht) trivial) h
  | _ => cases hform

theorem importing_sound : Sound mode importing (Stmt.Done mode) r := by
  intro c ts s d hc h
  obtain ⟨t, us, rfl, hkind, h⟩ := exists_of_expect_bind_eq_ok hc.1 (by decide) h
  obtain ⟨u, us, rfl, hname, h⟩ := exists_of_identifier_bind_eq_ok hc.1 h
  obtain ⟨localName, n, vs, hn, ⟨hlocal, hend⟩, h⟩ := localName?_sound.exists_of_bind hc h
  rw [skipNewlines_bind] at h
  obtain ⟨rfl, rfl⟩ := eq_of_pure_eq_ok h
  refine ⟨n, skipBreaks vs, hn, ⟨vs, .simple (.importing hkind hname hlocal) ?_,
    breaks_skipBreaks vs⟩, rfl⟩
  cases hlocal with
  | none => exact ⟨hend rfl, nofun⟩
  | some _ _ => trivial

theorem fromImport_sound : Sound mode fromImport (Stmt.Done mode) r := by
  intro c ts s d hc h
  obtain ⟨t, us, rfl, hkind, h⟩ := exists_of_expect_bind_eq_ok hc.1 (by decide) h
  obtain ⟨u, us, rfl, hname, h⟩ := exists_of_identifier_bind_eq_ok hc.1 h
  rw [discard_bind] at h
  obtain ⟨v, us, rfl, himport, h⟩ := exists_of_expect_bind_eq_ok hc.1 (by decide) h
  obtain ⟨items, n, vs, hn, ⟨hitems, hcomma⟩, h⟩ :=
    (commaSeparated_sound (Named.consumes _) identifier_sound).exists_of_bind hc h
  obtain ⟨localName, m, ws, hm, ⟨hlocal, hend⟩, h⟩ := localName?_sound.exists_of_bind hc h
  rw [skipNewlines_bind] at h
  obtain ⟨rfl, rfl⟩ := eq_of_pure_eq_ok h
  refine ⟨max n m, skipBreaks ws, Nat.max_le.mpr ⟨hn, hm⟩,
    ⟨ws, .simple (.fromImport hkind hname himport hitems hlocal) ?_, breaks_skipBreaks ws⟩, rfl⟩
  cases hlocal with
  | none => exact ⟨hend rfl, fun _ ↦ hcomma⟩
  | some _ _ => trivial

end Parse

namespace Level

open Parse

/-- A statement of a list, with the line breaks after it. -/
def item (l : Level) : Parse Stmt := do
  let s ← l.statement
  skipNewlines
  return s

theorem statements_eq (l : Level) (close : Kind) :
    l.statements close = many (fun k ↦ k ≠ close && k ≠ .eof) l.item := rfl

section

variable {mode : Mode} {l : Level} {r : Nat} (hl : l.ReadsPhrases mode r)

include hl

theorem parameter_sound : Sound mode l.parameter Parameter.Reads r := by
  intro c ts p d hc h
  rw [parameter, position_bind] at h
  obtain ⟨t, us, rfl, hname, h⟩ := exists_of_identifier_bind_eq_ok hc.1 h
  obtain ⟨type, n, vs, hn, ⟨htype, -⟩, h⟩ :=
    (after?_sound (by decide) typeRef_sound).exists_of_bind hc h
  obtain ⟨default, m, ws, hm, ⟨hdefault, -⟩, h⟩ :=
    (after?_sound (by decide) hl.expression).exists_of_bind hc h
  obtain ⟨rfl, rfl⟩ := eq_of_pure_eq_ok h
  exact ⟨max n m, ws, Nat.max_le.mpr ⟨hn, hm⟩, .mk hname htype hdefault.of_before.1, rfl⟩

theorem binding_sound {c : Cursor} {ts : List Token} {s : Stmt} {d : Cursor} (hc : c.Proper mode)
    (hkind : firstKind ts = .keyword .letKw ∨ firstKind ts = .keyword .constKw)
    (h : l.binding (c.facing ts) = .ok s d) :
    ∃ n us, n ≤ r ∧ s.Done mode n ts us ∧ d = c.facing us := by
  cases ts with
  | nil => rcases hkind with hkind | hkind <;> cases hkind
  | cons t us =>
      rw [binding, advance_bind_cons] at h
      obtain ⟨u, us, rfl, hname, h⟩ := exists_of_identifier_bind_eq_ok hc.1 h
      obtain ⟨type, n, vs, hn, ⟨htype, hcolon⟩, h⟩ :=
        (after?_sound (by decide) typeRef_sound).exists_of_bind hc h
      obtain ⟨value, m, ws, hm, ⟨hvalue, hassign⟩, h⟩ :=
        (after?_sound (by decide) hl.expression).exists_of_bind hc h
      rw [skipNewlines_bind] at h
      obtain ⟨rfl, rfl⟩ := eq_of_pure_eq_ok h
      obtain ⟨hvalue, hstop⟩ := hvalue.of_before
      refine ⟨max n m, skipBreaks ws, Nat.max_le.mpr ⟨hn, hm⟩,
        ⟨ws, .simple (.binding hkind hname htype hvalue) ?_, breaks_skipBreaks ws⟩, rfl⟩
      cases hvalue with
      | none => exact ⟨hassign rfl, hcolon⟩
      | some _ _ => exact hstop rfl

theorem returning_sound : Sound mode l.returning (Stmt.Done mode) r := by
  intro c ts s d hc h
  obtain ⟨t, us, rfl, hkind, h⟩ := exists_of_expect_bind_eq_ok hc.1 (by decide) h
  rw [kind_bind hc.1] at h
  split at h
  · next hend =>
      obtain ⟨rfl, rfl⟩ := eq_of_pure_eq_ok h
      refine ⟨0, skipBreaks us, Nat.zero_le r, ⟨us, .simple (.returning hkind) ?_,
        breaks_skipBreaks us⟩, rfl⟩
      simpa [Layout.exact, Stmt.EndsBefore] using hend
  · rw [map_bind] at h
    obtain ⟨v, n, vs, hn, ⟨hv, hstop⟩, h⟩ := hl.expression.exists_of_bind hc h
    dsimp only at h
    rw [skipNewlines_bind] at h
    obtain ⟨rfl, rfl⟩ := eq_of_pure_eq_ok h
    exact ⟨n, skipBreaks vs, hn, ⟨vs, .simple (.returningValue hkind hv) hstop,
      breaks_skipBreaks vs⟩, rfl⟩

theorem simple_sound : Sound mode l.simple (Stmt.Done mode) r := by
  intro c ts s d hc h
  rw [simple, position_bind] at h
  obtain ⟨e, n, us, hn, ⟨he, hstop⟩, h⟩ := hl.expression.exists_of_bind hc h
  rw [kind_bind hc.1] at h
  cases ts with
  | nil => exact absurd (he.length_lt nofun) (Nat.not_lt_zero _)
  | cons t ts =>
      cases hop : (firstKind us).assignOp? with
      | none =>
          rw [hop] at h
          obtain ⟨rfl, rfl⟩ := eq_of_pure_eq_ok h
          exact ⟨n, skipBreaks us, hn, ⟨us, .simple (.expression he) ⟨hstop, hop⟩,
            breaks_skipBreaks us⟩, rfl⟩
      | some op =>
          obtain ⟨u, us, rfl, hu⟩ := exists_cons_of_firstKind
            (Kind.assignOp?_eq_some_iff.mp hop) (by cases op <;> decide)
          rw [hop] at h
          simp only [discard_bind] at h
          rw [advance_bind_cons] at h
          obtain ⟨value, m, vs, hm, ⟨hvalue, hstop⟩, h⟩ := hl.expression.exists_of_bind hc h
          rw [skipNewlines_bind] at h
          obtain ⟨rfl, rfl⟩ := eq_of_pure_eq_ok h
          exact ⟨max n m, skipBreaks vs, Nat.max_le.mpr ⟨hn, hm⟩,
            ⟨vs, .simple (.assignment he hu hvalue) hstop, breaks_skipBreaks vs⟩, rfl⟩

end

section

variable {mode : Mode} {l : Level} {r : Nat} (hl : l.ReadsPhrases mode r)
  (hb : Sound mode l.block (fun b ↦ (Part.block b).Reads (.exact mode)) r)

include hb

theorem body_sound : Sound mode l.body (fun b ↦ (Part.body b).Reads (.exact mode)) r := by
  intro c ts b d hc h
  rw [body, discard_bind] at h
  obtain ⟨t, us, rfl, hcolon, h⟩ := exists_of_expect_bind_eq_ok hc.1 (by decide) h
  rw [skipNewlines_bind] at h
  obtain ⟨n, vs, hn, hread, rfl⟩ := hb hc h
  exact ⟨n, vs, hn, .body hcolon (breaks_skipBreaks us) hread, rfl⟩

theorem classDecl_sound : Sound mode l.classDecl (Stmt.Done mode) r := by
  intro c ts s d hc h
  obtain ⟨t, us, rfl, hkind, h⟩ := exists_of_expect_bind_eq_ok hc.1 (by decide) h
  obtain ⟨u, us, rfl, hname, h⟩ := exists_of_identifier_bind_eq_ok hc.1 h
  obtain ⟨b, n, vs, hn, hbody, h⟩ := (body_sound hb).exists_of_bind hc h
  obtain ⟨rfl, rfl⟩ := eq_of_pure_eq_ok h
  exact ⟨n, vs, hn, ⟨vs, .classDecl hkind hname hbody, .refl vs⟩, rfl⟩

include hl

theorem function_sound : Sound mode l.function (Stmt.Done mode) r := by
  intro c ts s d hc h
  obtain ⟨t, us, rfl, hkind, h⟩ := exists_of_expect_bind_eq_ok hc.1 (by decide) h
  obtain ⟨u, us, rfl, hname, h⟩ := exists_of_identifier_bind_eq_ok hc.1 h
  rw [discard_bind] at h
  obtain ⟨v, us, rfl, hopen, h⟩ := exists_of_expect_bind_eq_ok hc.1 (by decide) h
  obtain ⟨ps, n, vs, hn, hps, h⟩ :=
    (listUntil_sound Parameter.Reads.consumes (parameter_sound hl)).exists_of_bind hc h
  rw [discard_bind] at h
  obtain ⟨w, vs, rfl, hclose, h⟩ := exists_of_expect_bind_eq_ok hc.1 (by decide) h
  obtain ⟨returns, m, ws, hm, ⟨hreturns, -⟩, h⟩ :=
    (after?_sound (r := r) (by decide) typeRef_sound).exists_of_bind hc h
  obtain ⟨b, k, xs, hk, hbody, h⟩ := (body_sound hb).exists_of_bind hc h
  obtain ⟨rfl, rfl⟩ := eq_of_pure_eq_ok h
  exact ⟨max n (max m k), xs, Nat.max_le.mpr ⟨hn, Nat.max_le.mpr ⟨hm, hk⟩⟩,
    ⟨xs, .function hkind hname hopen hps hclose hreturns hbody, .refl xs⟩, rfl⟩

theorem whileLoop_sound : Sound mode l.whileLoop (Stmt.Done mode) r := by
  intro c ts s d hc h
  obtain ⟨t, us, rfl, hkind, h⟩ := exists_of_expect_bind_eq_ok hc.1 (by decide) h
  obtain ⟨e, n, vs, hn, ⟨he, -⟩, h⟩ := hl.expression.exists_of_bind hc h
  obtain ⟨b, m, ws, hm, hbody, h⟩ := (body_sound hb).exists_of_bind hc h
  obtain ⟨rfl, rfl⟩ := eq_of_pure_eq_ok h
  exact ⟨max n m, ws, Nat.max_le.mpr ⟨hn, hm⟩,
    ⟨ws, .whileLoop hkind he hbody, .refl ws⟩, rfl⟩

theorem forLoop_sound : Sound mode l.forLoop (Stmt.Done mode) r := by
  intro c ts s d hc h
  obtain ⟨t, us, rfl, hkind, h⟩ := exists_of_expect_bind_eq_ok hc.1 (by decide) h
  obtain ⟨u, us, rfl, hname, h⟩ := exists_of_identifier_bind_eq_ok hc.1 h
  rw [discard_bind] at h
  obtain ⟨v, us, rfl, hin, h⟩ := exists_of_expect_bind_eq_ok hc.1 (by decide) h
  obtain ⟨e, n, vs, hn, ⟨he, -⟩, h⟩ := hl.expression.exists_of_bind hc h
  obtain ⟨b, m, ws, hm, hbody, h⟩ := (body_sound hb).exists_of_bind hc h
  obtain ⟨rfl, rfl⟩ := eq_of_pure_eq_ok h
  exact ⟨max n m, ws, Nat.max_le.mpr ⟨hn, hm⟩,
    ⟨ws, .forLoop hkind hname hin he hbody, .refl ws⟩, rfl⟩

theorem branch_sound :
    Sound mode l.branch (fun b ↦ (Part.branches [b]).Reads (.exact mode)) r := by
  intro c ts b d hc h
  obtain ⟨e, n, us, hn, ⟨he, -⟩, h⟩ := hl.expression.exists_of_bind hc h
  obtain ⟨b, m, vs, hm, hbody, h⟩ := (body_sound hb).exists_of_bind hc h
  obtain ⟨rfl, rfl⟩ := eq_of_pure_eq_ok h
  exact ⟨max n m, vs, Nat.max_le.mpr ⟨hn, hm⟩, .branch he hbody, rfl⟩

theorem conditional_sound : Sound mode l.conditional (Stmt.Done mode) r := by
  intro c ts s d hc h
  obtain ⟨t, us, rfl, hkind, h⟩ := exists_of_expect_bind_eq_ok hc.1 (by decide) h
  obtain ⟨b, n, vs, hn, hfirst, h⟩ := (branch_sound hl hb).exists_of_bind hc h
  have hmany : Sound mode (many (· = .keyword .elifKw) do discard advance; l.branch)
      ((Sequence (Branch.AfterElif mode)).before fun us ↦
        decide (firstKind us = .keyword .elifKw) = false) r := by
    apply many_sound rfl (Branch.AfterElif.consumes mode)
    intro c ts b d hc hfirst h
    obtain ⟨t, us, rfl, helif⟩ :=
      exists_cons_of_firstKind (of_decide_eq_true hfirst) (by decide)
    rw [discard_bind, advance_bind_cons] at h
    obtain ⟨n, vs, hn, hread, rfl⟩ := branch_sound hl hb hc h
    exact ⟨n, vs, hn, ⟨t, us, rfl, helif, hread⟩, rfl⟩
  obtain ⟨bs, m, ws, hm, ⟨hbs, -⟩, h⟩ := hmany.exists_of_bind hc h
  obtain ⟨o, k, xs, hk, ⟨ho, -⟩, h⟩ :=
    (after?_sound (by decide) (body_sound hb)).exists_of_bind hc h
  obtain ⟨rfl, rfl⟩ := eq_of_pure_eq_ok h
  exact ⟨max (max n m) k, xs, Nat.max_le.mpr ⟨Nat.max_le.mpr ⟨hn, hm⟩, hk⟩,
    ⟨xs, .conditional hkind (Part.Reads.branches_of_sequence hfirst hbs)
      (Part.Reads.otherwise_of_optionally ho), .refl xs⟩, rfl⟩

theorem formed_sound {c : Cursor} {ts : List Token} {s : Stmt} {d : Cursor} {k : Keyword}
    {form : StatementForm} (hc : c.Proper mode) (hkind : firstKind ts = .keyword k)
    (hform : k.statementForm? = some form) (h : l.formed form (c.facing ts) = .ok s d) :
    ∃ n us, n ≤ r ∧ s.Done mode n ts us ∧ d = c.facing us := by
  cases form with
  | function => exact function_sound hl hb hc h
  | binding =>
      refine binding_sound hl hc ?_ h
      cases k with
      | letKw => exact .inl hkind
      | constKw => exact .inr hkind
      | _ => cases hform
  | conditional => exact conditional_sound hl hb hc h
  | whileLoop => exact whileLoop_sound hl hb hc h
  | forLoop => exact forLoop_sound hl hb hc h
  | returning => exact returning_sound hl hc h
  | word =>
      obtain ⟨us, hs, rfl⟩ := word_sound hkind hform h
      exact ⟨0, us, Nat.zero_le r, hs, rfl⟩
  | classDecl => exact classDecl_sound hb hc h
  | importing => exact importing_sound hc h
  | fromImport => exact fromImport_sound hc h

theorem statement_sound : Sound mode l.statement
    (fun s n ts us ↦ ∃ vs, Breaks ts vs ∧ s.Done mode n vs us) r := by
  intro c ts s d hc h
  rw [statement, skipNewlines_bind, kind_bind hc.1] at h
  have hbefore := breaks_skipBreaks ts
  generalize skipBreaks ts = vs at h hbefore
  cases hform : (firstKind vs).statementForm? with
  | none =>
      rw [hform] at h
      obtain ⟨n, us, hn, hs, rfl⟩ := simple_sound hl hc h
      exact ⟨n, us, hn, ⟨vs, hbefore, hs⟩, rfl⟩
  | some form =>
      rw [hform] at h
      cases hkind : firstKind vs with
      | keyword k =>
          rw [hkind] at hform
          obtain ⟨n, us, hn, hs, rfl⟩ := formed_sound hl hb hc hkind hform h
          exact ⟨n, us, hn, ⟨vs, hbefore, hs⟩, rfl⟩
      | _ =>
          rw [hkind] at hform
          cases hform

theorem item_sound : Sound mode l.item (Stmt.Item mode) r := by
  intro c ts s d hc h
  obtain ⟨s, n, us, hn, ⟨vs, hbefore, ws, hs, hafter⟩, h⟩ :=
    (statement_sound hl hb).exists_of_bind hc h
  rw [skipNewlines_bind] at h
  obtain ⟨rfl, rfl⟩ := eq_of_pure_eq_ok h
  exact ⟨n, skipBreaks us, hn, ⟨vs, hbefore, ws, hs, hafter.trans (breaks_skipBreaks us)⟩, rfl⟩

theorem statements_sound (close : Kind) : Sound mode (l.statements close)
    (Reading.before (fun ss ↦ (Part.stmts ss).Reads (.exact mode)) fun us ↦
      firstKind us = close ∨ firstKind us = .eof) r := by
  intro c ts ss d hc h
  have hmany : Sound mode (l.statements close) ((Sequence (Stmt.Item mode)).before fun us ↦
      (firstKind us ≠ close && firstKind us ≠ .eof) = false) r :=
    many_sound (by simp) (Stmt.Item.consumes mode) fun _ _ _ _ hc _ h ↦ item_sound hl hb hc h
  obtain ⟨n, us, hn, ⟨hss, hend⟩, rfl⟩ := hmany hc h
  refine ⟨n, us, hn, ⟨Part.Reads.stmts_of_sequence hss, ?_⟩, rfl⟩
  simpa [or_iff_not_imp_left] using hend

end

end Level
end Offside
