import Offside.Proofs.Parse.Expression
import Offside.Proofs.Parse.Needs

/-!
# Phrases are parsed

Whatever the grammar reads as an expression is parsed as that expression, given room for its
levels. A phrase may be an operand of what follows it, so for the tiers and for atoms with suffixes
the claim is that the parser reaches its loop with the phrase as what has been read so far.
-/

namespace Offside

namespace Precedence

theorem le_rightOperand (p : Precedence) : p ≤ p.rightOperand := by
  cases p <;> decide

theorem le_tighter (p : Precedence) : p ≤ p.tighter := by
  cases p <;> decide

theorem rightOperand_le_tighter (p : Precedence) : p.rightOperand ≤ p.tighter.rightOperand := by
  cases p <;> decide

theorem le_leftOperand (p : Precedence) : p ≤ p.leftOperand := by
  cases p <;> decide

theorem le_trans {p q r : Precedence} (hpq : p ≤ q) (hqr : q ≤ r) : p ≤ r :=
  Nat.le_trans hpq hqr

end Precedence

theorem Kind.Ends.mono {p q : Precedence} {k : Kind} (h : k.Ends p) (hpq : p ≤ q) : k.Ends q := by
  refine ⟨h.1, ?_⟩
  rw [Option.eq_none_iff_forall_ne_some]
  intro op hop
  obtain ⟨hk, hq⟩ := Kind.binaryOpAbove?_eq_some_iff.mp hop
  have hfound := Kind.binaryOpAbove?_eq_some_iff.mpr ⟨hk, Precedence.le_trans hpq hq⟩
  rw [h.2] at hfound
  cases hfound

/-- What stands to the left of an operator ends before it. -/
theorem BinaryOp.kind_ends (op : BinaryOp) :
    op.kind.Ends op.precedence.leftOperand.rightOperand := by
  cases op <;> decide

theorem BinaryOp.precedence_ne_unary (op : BinaryOp) : op.precedence ≠ .unary := by
  cases op <;> decide

theorem Kind.unaryOp?_eq_none_of_atomForm? {k : Kind} (h : k.atomForm?.isSome) :
    k.unaryOp? = none := by
  cases k with
  | keyword k => cases k <;> first | rfl | cases h
  | mark m => cases m <;> first | rfl | cases h
  | _ => rfl

namespace Level

open Parse

/-- The loop over binary operators, with `e` as what has been read so far. -/
def climbFrom (l : Level) (p : Precedence) (e : Expr) : Parse Expr :=
  chain (Kind.binaryOpAbove? p) (fun left op ↦ do
    discard advance
    let right ← l.expr op.precedence.rightOperand
    return .binary left.position op left right) e

theorem climb_eq (l : Level) (p : Precedence) : l.climb p = l.operand >>= l.climbFrom p := rfl

/-- The loop over suffixes. -/
def suffixedFrom (l : Level) : Expr → Parse Expr :=
  chain Kind.suffix? (suffix (l.expr .lowest))

section

variable {c : Cursor} {r : Nat} (hc : c.stop.kind = .eof)

include hc

theorem climbFrom_of_stops {p : Precedence} {ts : List Token} (h : Stops p ts) (l : Level)
    (e : Expr) : l.climbFrom p e (c.facing ts) = .ok e (c.facing ts) :=
  chain_of_none hc h.2 e

theorem suffixedFrom_of_stops {p : Precedence} {ts : List Token} (h : Stops p ts) (l : Level)
    (e : Expr) : l.suffixedFrom e (c.facing ts) = .ok e (c.facing ts) :=
  chain_of_none hc h.1 e

theorem climbFrom_cons {p : Precedence} {t : Token} {op : BinaryOp} (hop : t.kind = op.kind)
    (hp : p ≤ op.precedence) (e : Expr) (ts : List Token) :
    (ofRoom r).climbFrom p e (c.facing (t :: ts)) =
      ((ofRoom r).expr op.precedence.rightOperand >>= fun right ↦
        (ofRoom r).climbFrom p (.binary e.position op e right)) (c.facing ts) := by
  have hl := ofRoom_readsPhrases c.mode r
  have hnext : Kind.binaryOpAbove? p (firstKind (t :: ts)) = some op :=
    Kind.binaryOpAbove?_eq_some_iff.mpr ⟨hop, hp⟩
  rw [climbFrom, chain_of_some hc rfl ?_ hnext]
  · rw [discard_bind, bind_assoc, advance_bind_cons, bind_assoc]
    rfl
  · intro left op ts e' d hnext hround
    obtain ⟨hkind, -⟩ := Kind.binaryOpAbove?_eq_some_iff.mp hnext
    obtain ⟨u, us, rfl, -⟩ := exists_cons_of_firstKind hkind (by cases op <;> decide)
    dsimp only at hround
    rw [discard_bind, advance_bind_cons] at hround
    obtain ⟨right, n, vs, -, ⟨hright, -⟩, hround⟩ := (hl.expr _).exists_of_bind ⟨hc, rfl⟩ hround
    obtain ⟨-, rfl⟩ := eq_of_pure_eq_ok hround
    exact ⟨vs, rfl, Nat.lt_succ_of_lt (hright.length_lt nofun)⟩

theorem suffixedFrom_cons {t : Token} {form : Suffix} (hform : t.kind.suffix? = some form)
    (e : Expr) (ts : List Token) :
    (ofRoom r).suffixedFrom e (c.facing (t :: ts)) =
      (suffix ((ofRoom r).expr .lowest) e form >>= (ofRoom r).suffixedFrom)
        (c.facing (t :: ts)) := by
  apply chain_of_some hc rfl ?_ hform
  intro e form us e' d hform hround
  have hx := (ofRoom_readsPhrases c.mode r).expression.imp fun _ _ _ _ h ↦ h.1
  obtain ⟨vs, hlt, rfl, -⟩ := suffix_sound hx ⟨hc, rfl⟩ hform hround
  exact ⟨vs, rfl, hlt⟩

end

end Level

namespace Phrase

open Parse Level

/-- How the parsers with room for `r` levels come out of a phrase on `n` levels. -/
def Comes (c : Cursor) (r : Nat) : Phrase → Nat → List Token → List Token → Prop
  | nested p e, n, ts, us => Stops p us →
      Needs c.limit r n ((ofRoom r).expr p (c.facing ts)) (.ok e (c.facing us))
  | tier p e, n, ts, us => Stops p.rightOperand us →
      (∀ q ≤ p, Needs c.limit r n ((ofRoom r).climb q (c.facing ts))
        ((ofRoom r).climbFrom q e (c.facing us))) ∧
      (p = .unary → Needs c.limit r n ((ofRoom r).operand (c.facing ts)) (.ok e (c.facing us)))
  | suffixed e, n, ts, us =>
      Needs c.limit r n (Parse.suffixed ((ofRoom r).expr .lowest) (c.facing ts))
        ((ofRoom r).suffixedFrom e (c.facing us))
  | list es, n, ts, us => Stops .lowest us → firstKind us ≠ .mark .comma →
      Needs c.limit r n (commaSeparated ((ofRoom r).expr .lowest) (c.facing ts))
        (.ok es (c.facing us))
  | items es, n, ts, us => ∀ close, close = .mark .closeParen ∨ close = .mark .closeBracket →
      firstKind us = close →
        Needs c.limit r n (listUntil close ((ofRoom r).expr .lowest) (c.facing ts))
          (.ok es (c.facing us))

theorem stops_of_kind {p : Precedence} {ts : List Token} {k : Kind} (h : firstKind ts = k)
    (hk : k.Ends p) : Stops p ts := by
  rwa [Stops, h]

theorem suffixed_of_atom {c : Cursor} {r n : Nat} {ts us : List Token} {e : Expr}
    (h : Needs c.limit r n (atom ((ofRoom r).expr .lowest) (c.facing ts)) (.ok e (c.facing us))) :
    (suffixed e).Comes c r n ts us :=
  h.bind _

/-- The atom of the given form. -/
def atomOf (expression : Parse Expr) : AtomForm → Parse Expr
  | .primary => Parse.primary
  | .group => Parse.group expression
  | .array => Parse.array expression

theorem atom_of_form {c : Cursor} {t : Token} {ts : List Token} {form : AtomForm}
    (h : t.kind.atomForm? = some form) (expression : Parse Expr) :
    atom expression (c.facing (t :: ts)) = atomOf expression form (c.facing (t :: ts)) := by
  have hcurrent : (c.facing (t :: ts)).current = t := rfl
  simp only [atom, current_bind, hcurrent, h]
  cases form <;> rfl

theorem Reads.comes {ph : Phrase} {n : Nat} {ts us : List Token} (h : ph.Reads n ts us)
    {c : Cursor} {r : Nat} (hc : c.Fits r) : ph.Comes c r n ts us := by
  induction h generalizing c r with
  | @nested p e n ts us h ih =>
      intro hstop
      rw [ofRoom_eq]
      apply entering_needs hc
      rintro r rfl
      have hclimb := (ih hc.deepen (hstop.mono p.le_rightOperand)).1 p (Nat.le_refl _)
      rwa [climbFrom_of_stops (c := c.deepen) hc.1 hstop] at hclimb
  | @looser p e n ts us h ih =>
      intro hstop
      have ih := ih hc (hstop.mono p.rightOperand_le_tighter)
      refine ⟨fun q hq ↦ ih.1 q (Precedence.le_trans hq p.le_tighter), ?_⟩
      rintro rfl
      exact ih.2 rfl
  | @binary op t l e n m ts us vs hleft hop hright ihl ihr =>
      intro hstop
      refine ⟨fun q hq ↦ ?_, fun h ↦ absurd h op.precedence_ne_unary⟩
      have hends : Stops op.precedence.leftOperand.rightOperand (t :: us) := by
        rw [Stops, firstKind_cons, hop]
        exact op.kind_ends
      have hl := (ihl hc hends).1 q (Precedence.le_trans hq op.precedence.le_leftOperand)
      refine hl.trans ?_
      rw [climbFrom_cons hc.1 hop hq]
      exact (ihr hc hstop).bind _
  | @unary op t e n ts us hop h ih =>
      intro hstop
      have hoperand : Needs c.limit r (n + 1) ((ofRoom r).operand (c.facing (t :: ts)))
          (.ok (.unary t.position op e) (c.facing us)) := by
        rw [ofRoom_eq]
        show Needs _ _ _ ((kind >>= _) _) _
        rw [kind_bind hc.1, firstKind_cons, Kind.unaryOp?_eq_some_iff.mpr hop]
        apply entering_needs hc
        rintro r rfl
        rw [prefixed, advance_bind_cons]
        exact ((ih hc.deepen hstop).2 rfl).bind _
      refine ⟨fun q _ ↦ ?_, fun _ ↦ hoperand⟩
      rw [climb_eq]
      exact hoperand.bind _
  | @operand e n ts us h ih =>
      intro hstop
      obtain ⟨t, vs, rfl, hatom⟩ := h.exists_cons (by simp)
      have hoperand : Needs c.limit r n ((ofRoom r).operand (c.facing (t :: vs)))
          (.ok e (c.facing us)) := by
        have ih : Needs _ _ _ (Parse.suffixed _ _) _ := ih hc
        rw [suffixedFrom_of_stops hc.1 hstop, ofRoom_eq] at ih
        rw [ofRoom_eq]
        show Needs _ _ _ ((kind >>= _) _) _
        rw [kind_bind hc.1, firstKind_cons, Kind.unaryOp?_eq_none_of_atomForm? hatom]
        exact ih
      refine ⟨fun q _ ↦ ?_, fun _ ↦ hoperand⟩
      rw [climb_eq]
      exact hoperand.bind _
  | @primary t e ts htoken =>
      apply suffixed_of_atom
      rw [atom_of_form (Expr.atomForm?_of_ofToken htoken), atomOf, Parse.primary,
        advance_bind_cons, htoken]
      exact Needs.refl _
  | @group t u e n ts us hopen h hclose ih =>
      apply suffixed_of_atom
      rw [atom_of_form (by rw [hopen]; rfl), atomOf, Parse.group, discard_bind,
        expect_bind_cons hopen]
      refine (ih hc (stops_of_kind hclose (by decide))).bind_eq ?_
      rw [discard_bind, expect_bind_cons hclose]
      rfl
  | @array t u es n ts us hopen h hclose ih =>
      apply suffixed_of_atom
      rw [atom_of_form (by rw [hopen]; rfl), atomOf, Parse.array, expect_bind_cons hopen]
      refine (ih hc _ (.inr rfl) hclose).bind_eq ?_
      rw [discard_bind, expect_bind_cons hclose]
      rfl
  | @call t u e es n m ts us vs hcallee hopen h hclose ihl ihr =>
      refine (ihl hc).trans ?_
      rw [suffixedFrom_cons hc.1 (by rw [hopen]; rfl)]
      refine Needs.bind ?_ _
      rw [Parse.suffix.eq_def, discard_bind, advance_bind_cons]
      refine (ihr hc _ (.inl rfl) hclose).bind_eq ?_
      rw [discard_bind, expect_bind_cons hclose]
      rfl
  | @subscript t u e i n m ts us vs hobject hopen h hclose ihl ihr =>
      refine (ihl hc).trans ?_
      rw [suffixedFrom_cons hc.1 (by rw [hopen]; rfl)]
      refine Needs.bind ?_ _
      rw [Parse.suffix.eq_def, discard_bind, advance_bind_cons]
      refine (ihr hc (stops_of_kind hclose (by decide))).bind_eq ?_
      rw [discard_bind, expect_bind_cons hclose]
      rfl
  | @member t u e n ts us hobject hdot hname ih =>
      have hsuffix : Parse.suffix ((ofRoom r).expr .lowest) e .member (c.facing (t :: u :: us)) =
          .ok (.member e.position e u.lexeme) (c.facing us) := by
        rw [Parse.suffix.eq_def, discard_bind, advance_bind_cons]
        exact bind_of_ok (bind_of_ok (expect_cons hname c us))
      have hobject : Needs _ _ _ _ _ := ih hc
      rw [suffixedFrom_cons hc.1 (by rw [hdot]; rfl), bind_of_ok hsuffix] at hobject
      exact hobject
  | last h ih =>
      intro hstop hcomma
      exact separatedBy_last hc.1 (ih hc hstop) hcomma
  | @more t e es n m ts us vs h hcomma hothers ihl ihr =>
      intro hstop hend
      have hx := (ofRoom_readsPhrases c.mode r).expression
      have hadvances := hx.advances ((nested_consumes .lowest).before _) ⟨hc.1, rfl⟩
      exact separatedBy_more hc.1 (hadvances _) (by decide)
        (ihl hc (stops_of_kind hcomma (by decide))) hcomma (ihr hc hstop hend)
  | none =>
      intro close _ hclose
      rw [listUntil, kind_bind hc.1, if_pos hclose]
      exact Needs.refl _
  | @some es n ts us h ih =>
      intro close hkind hclose
      obtain ⟨t, vs, rfl, hstart⟩ := h.exists_cons (by simp)
      have hopen : t.kind ≠ close := by
        rintro rfl
        rcases hkind with hkind | hkind <;> 
          simp [Starts, hkind, Kind.StartsExpr, Kind.atomForm?, Kind.unaryOp?] at hstart
      rw [listUntil, kind_bind hc.1, firstKind_cons, if_neg hopen]
      refine ih hc ?_ ?_
      · rcases hkind with rfl | rfl
        · exact stops_of_kind hclose (by decide)
        · exact stops_of_kind hclose (by decide)
      · rcases hkind with rfl | rfl <;> simp [hclose]

end Phrase
end Offside
