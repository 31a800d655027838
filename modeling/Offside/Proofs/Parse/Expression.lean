import Offside.Proofs.Grammar.Phrase
import Offside.Proofs.Parse.Sound

/-!
# Parsed expressions are phrases

Every expression that a parser accepts is a phrase of the grammar, on no more levels than the
parser has, and what follows it does not go on with it. The loop over binary operators keeps that
the expression so far is a phrase of some level which the next operator does not extend to the
right.
-/

namespace Offside

namespace Parse

section

variable {mode : Mode} {r : Nat}

theorem primary_sound : Sound mode primary (fun e ↦ (Phrase.suffixed e).Reads) r := by
  intro c ts e d hc h
  cases ts with
  | nil =>
      have herror : Expr.ofToken c.stop = .error (.expectedExpression c.stop.describe) := by
        rw [Expr.ofToken, hc.1]
      have hadvance : advance (c.facing []) = .ok c.stop (c.facing []) := rfl
      rw [primary, bind_of_ok hadvance, herror] at h
      cases h
  | cons t us =>
      rw [primary, advance_bind_cons] at h
      cases htoken : Expr.ofToken t with
      | error cause =>
          rw [htoken] at h
          cases h
      | ok e' =>
          rw [htoken] at h
          obtain ⟨rfl, rfl⟩ := eq_of_pure_eq_ok h
          exact ⟨0, us, Nat.zero_le r, .primary htoken, rfl⟩

variable {expression : Parse Expr}
  (hx : Sound mode expression Expr.Reads r)

include hx

theorem group_sound : Sound mode (group expression) (fun e ↦ (Phrase.suffixed e).Reads) r := by
  intro c ts e d hc h
  rw [group, discard_bind] at h
  obtain ⟨t, us, rfl, hopen, h⟩ := exists_of_expect_bind_eq_ok hc.1 (by decide) h
  obtain ⟨e', n, vs, hn, he, h⟩ := hx.exists_of_bind hc h
  rw [discard_bind] at h
  obtain ⟨u, ws, rfl, hclose, h⟩ := exists_of_expect_bind_eq_ok hc.1 (by decide) h
  obtain ⟨rfl, rfl⟩ := eq_of_pure_eq_ok h
  exact ⟨n, ws, hn, .group hopen he hclose, rfl⟩

theorem items_sound (close : Kind) :
    Sound mode (listUntil close expression) (fun es ↦ (Phrase.items es).Reads) r :=
  (listUntil_sound (Phrase.nested_consumes _) hx).imp fun _ _ _ _ h ↦
    Phrase.Reads.items_of_listed h

theorem array_sound : Sound mode (array expression) (fun e ↦ (Phrase.suffixed e).Reads) r := by
  intro c ts e d hc h
  obtain ⟨t, us, rfl, hopen, h⟩ := exists_of_expect_bind_eq_ok hc.1 (by decide) h
  obtain ⟨es, n, vs, hn, hes, h⟩ := (items_sound hx _).exists_of_bind hc h
  rw [discard_bind] at h
  obtain ⟨u, ws, rfl, hclose, h⟩ := exists_of_expect_bind_eq_ok hc.1 (by decide) h
  obtain ⟨rfl, rfl⟩ := eq_of_pure_eq_ok h
  exact ⟨n, ws, hn, .array hopen hes hclose, rfl⟩

theorem atom_sound : Sound mode (atom expression) (fun e ↦ (Phrase.suffixed e).Reads) r := by
  intro c ts e d hc h
  simp only [atom, current_bind] at h
  cases hform : (c.facing ts).current.kind.atomForm? with
  | none =>
      rw [hform] at h
      cases h
  | some form =>
      rw [hform] at h
      cases form with
      | primary => exact primary_sound hc h
      | group => exact group_sound hx hc h
      | array => exact array_sound hx hc h

/-- One more suffix, on whatever ends where the suffix starts. -/
theorem suffix_sound {c : Cursor} {e e' : Expr} {form : Suffix} {us : List Token} {d : Cursor}
    (hc : c.Proper mode) (hform : (firstKind us).suffix? = some form)
    (h : suffix expression e form (c.facing us) = .ok e' d) :
    ∃ vs, vs.length < us.length ∧ d = c.facing vs ∧ ∀ n ts, n ≤ r →
      (Phrase.suffixed e).Reads n ts us → ∃ m ≤ r, (Phrase.suffixed e').Reads m ts vs := by
  cases us with
  | nil => cases hform
  | cons t us =>
      rw [suffix.eq_def, discard_bind, advance_bind_cons] at h
      rw [firstKind_cons] at hform
      unfold Kind.suffix? at hform
      split at hform
      · next hopen =>
          cases hform
          obtain ⟨es, m, vs, hm, hes, h⟩ := (items_sound hx _).exists_of_bind hc h
          rw [discard_bind] at h
          obtain ⟨u, ws, rfl, hclose, h⟩ := exists_of_expect_bind_eq_ok hc.1 (by decide) h
          obtain ⟨rfl, rfl⟩ := eq_of_pure_eq_ok h
          have hle := hes.suffix.length_le
          refine ⟨ws, ?_, rfl, fun n ts hn he ↦ ?_⟩
          · rw [List.length_cons] at hle ⊢
            omega
          · exact ⟨max n m, Nat.max_le.mpr ⟨hn, hm⟩, .call he hopen hes hclose⟩
      · next hopen =>
          cases hform
          obtain ⟨i, m, vs, hm, hi, h⟩ := hx.exists_of_bind hc h
          rw [discard_bind] at h
          obtain ⟨u, ws, rfl, hclose, h⟩ := exists_of_expect_bind_eq_ok hc.1 (by decide) h
          obtain ⟨rfl, rfl⟩ := eq_of_pure_eq_ok h
          have hle := hi.suffix.length_le
          refine ⟨ws, ?_, rfl, fun n ts hn he ↦ ?_⟩
          · rw [List.length_cons] at hle ⊢
            omega
          · exact ⟨max n m, Nat.max_le.mpr ⟨hn, hm⟩, .subscript he hopen hi hclose⟩
      · next hdot =>
          cases hform
          obtain ⟨u, vs, rfl, hname, h⟩ := exists_of_identifier_bind_eq_ok hc.1 h
          obtain ⟨rfl, rfl⟩ := eq_of_pure_eq_ok h
          exact ⟨vs, Nat.lt_succ_of_lt (Nat.lt_succ_self _), rfl,
            fun n ts hn he ↦ ⟨n, hn, .member he hdot hname⟩⟩
      · cases hform

theorem suffixed_sound : Sound mode (suffixed expression)
    (Reading.before (fun e ↦ (Phrase.suffixed e).Reads) fun us ↦
      (firstKind us).suffix? = none) r := by
  intro c ts e d hc h
  obtain ⟨e₀, n, us, hn, he, h⟩ := (atom_sound hx).exists_of_bind hc h
  obtain ⟨vs, rfl, ⟨m, hm, he⟩, hstop⟩ := of_chain_eq_ok
    (P := fun e us ↦ ∃ m ≤ r, (Phrase.suffixed e).Reads m ts us) hc.1 rfl
    (by
      intro e form us e' d hread hform hround
      obtain ⟨m, hm, he⟩ := hread
      obtain ⟨vs, hlt, rfl, hone⟩ := suffix_sound hx hc hform hround
      exact ⟨vs, rfl, hlt, hone m ts hm he⟩)
    ⟨n, hn, he⟩ h
  exact ⟨m, vs, hm, ⟨he, hstop⟩, rfl⟩

end

end Parse

namespace Level

open Parse

/-- The expressions and operands of a level with room for `r` more. -/
structure ReadsPhrases (mode : Mode) (l : Level) (r : Nat) : Prop where
  expr (p : Precedence) :
    Sound mode (l.expr p) (Reading.before (fun e ↦ (Phrase.nested p e).Reads) (Stops p)) r
  operand :
    Sound mode l.operand (Reading.before (fun e ↦ (Phrase.tier .unary e).Reads) (Stops .unary)) r

variable {mode : Mode} {l : Level} {r : Nat}

theorem ReadsPhrases.expression (hl : l.ReadsPhrases mode r) :
    Sound mode l.expression (Expr.Reads.before
      (Stops .lowest)) r :=
  hl.expr .lowest

theorem stops_unary_iff {ts : List Token} :
    Stops .unary ts ↔ (firstKind ts).suffix? = none := by
  refine ⟨And.left, fun h ↦ ⟨h, ?_⟩⟩
  rw [Option.eq_none_iff_forall_ne_some]
  intro op hop
  obtain ⟨-, hle⟩ := Kind.binaryOpAbove?_eq_some_iff.mp hop
  revert hle
  cases op <;> decide

theorem climb_sound (hl : l.ReadsPhrases mode r) (p : Precedence) :
    Sound mode (l.climb p) (Reading.before (fun e ↦ (Phrase.tier p e).Reads) (Stops p)) r := by
  intro c ts e d hc h
  obtain ⟨e₀, n, us, hn, ⟨he, hstop⟩, h⟩ := hl.operand.exists_of_bind hc h
  -- an operator ahead never extends the right operand of the one before it
  obtain ⟨vs, rfl, ⟨q, m, hq, hm, he, hstop⟩, hnone⟩ := of_chain_eq_ok
    (P := fun e us ↦ ∃ q m, p ≤ q ∧ m ≤ r ∧ (Phrase.tier q e).Reads m ts us ∧
      Stops q.rightOperand us) hc.1 rfl
    (by
      intro left op us e' d hread hop hround
      obtain ⟨q, m, hq, hm, he, hstop⟩ := hread
      obtain ⟨hkind, hp⟩ := Kind.binaryOpAbove?_eq_some_iff.mp hop
      have hle : op.precedence.leftOperand ≤ q := by
        apply Precedence.leftOperand_le_of_lt_rightOperand
        intro hle
        have := Kind.binaryOpAbove?_eq_some_iff.mpr ⟨hkind, hle⟩
        rw [hstop.2] at this
        cases this
      obtain ⟨t, us, rfl, hkind⟩ := exists_cons_of_firstKind hkind (by cases op <;> decide)
      rw [discard_bind, advance_bind_cons] at hround
      obtain ⟨right, k, vs, hk, ⟨hright, hstop⟩, hround⟩ := (hl.expr _).exists_of_bind hc hround
      obtain ⟨rfl, rfl⟩ := eq_of_pure_eq_ok hround
      exact ⟨vs, rfl, Nat.lt_succ_of_lt (hright.length_lt nofun), op.precedence, max m k, hp,
        Nat.max_le.mpr ⟨hm, hk⟩, .binary (he.loosen hle) hkind hright, hstop⟩)
    ⟨.unary, n, p.rank_le_unary, hn, he, hstop⟩ h
  exact ⟨m, vs, hm, ⟨he.loosen hq, hstop.1, hnone⟩, rfl⟩

theorem prefixed_sound (hl : l.ReadsPhrases mode r) {op : UnaryOp} {c : Cursor} {ts : List Token}
    {e : Expr} {d : Cursor} (hc : c.Proper mode) (hop : firstKind ts = op.kind)
    (h : l.prefixed op (c.facing ts) = .ok e d) :
    ∃ n us, n ≤ r ∧ (Phrase.tier .unary e).Reads (n + 1) ts us ∧ Stops .unary us ∧
      d = c.facing us := by
  obtain ⟨t, us, rfl, hkind⟩ := exists_cons_of_firstKind hop (by cases op <;> decide)
  rw [prefixed, advance_bind_cons] at h
  obtain ⟨e', n, vs, hn, ⟨he, hstop⟩, h⟩ := hl.operand.exists_of_bind hc h
  obtain ⟨rfl, rfl⟩ := eq_of_pure_eq_ok h
  exact ⟨n, vs, hn, .unary hkind he, hstop, rfl⟩

section

variable {inner : Option Level}
  (hinner : ∀ l, inner = some l → ∃ k, r = k + 1 ∧ l.ReadsPhrases mode k)

include hinner

theorem entering_climb_sound (p : Precedence) : Sound mode (entering inner (·.climb p))
    (Reading.before (fun e ↦ (Phrase.nested p e).Reads) (Stops p)) r := by
  intro c ts e d hc h
  obtain ⟨l, d, hl, hrun, rfl⟩ := exists_of_entering_eq_ok h
  obtain ⟨k, rfl, hl⟩ := hinner l hl
  obtain ⟨n, us, hn, ⟨he, hstop⟩, rfl⟩ := climb_sound hl p (c := c.deepen) hc hrun
  exact ⟨n + 1, us, Nat.succ_le_succ hn, ⟨.nested he, hstop⟩, rfl⟩

theorem above_readsPhrases : (above inner).ReadsPhrases mode r where
  expr := entering_climb_sound hinner
  operand := by
    intro c ts e d hc h
    replace h : (kind >>= _) (c.facing ts) = _ := h
    rw [kind_bind hc.1] at h
    cases hop : (firstKind ts).unaryOp? with
    | some op =>
        rw [hop] at h
        obtain ⟨l, d, hl, hrun, rfl⟩ := exists_of_entering_eq_ok h
        obtain ⟨k, rfl, hl⟩ := hinner l hl
        obtain ⟨n, us, hn, he, hstop, rfl⟩ :=
          prefixed_sound hl (c := c.deepen) hc (Kind.unaryOp?_eq_some_iff.mp hop) hrun
        exact ⟨n + 1, us, Nat.succ_le_succ hn, ⟨he, hstop⟩, rfl⟩
    | none =>
        rw [hop] at h
        have hx : Sound mode (entering inner (·.climb .lowest))
            Expr.Reads r :=
          (entering_climb_sound hinner .lowest).imp fun _ _ _ _ h ↦ h.1
        obtain ⟨n, us, hn, ⟨he, hstop⟩, rfl⟩ := suffixed_sound hx hc h
        exact ⟨n, us, hn, ⟨.operand he, stops_unary_iff.mpr hstop⟩, rfl⟩

end

theorem ofRoom_readsPhrases (mode : Mode) (r : Nat) : (ofRoom r).ReadsPhrases mode r := by
  induction r with
  | zero => exact above_readsPhrases nofun
  | succ r ih =>
      apply above_readsPhrases
      rintro l ⟨⟩
      exact ⟨r, rfl, ih⟩

end Level
end Offside
