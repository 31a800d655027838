import Mathlib.Data.List.Infix
import Offside.Grammar.Expression
import Offside.Grammar.Precedence
import Offside.Proofs.Grammar.Reading

/-!
# The grammar of expressions

Expressions are stratified by precedence. A phrase of a level is an operator of that level
between two phrases, or a phrase of the next level; under all levels lie operands, which are rows
of unary operators in front of atoms with their suffixes.
-/

namespace Offside

/-- The loosest that may stand to the left of an operator of this level. -/
def Precedence.leftOperand : Precedence → Precedence
  | .power => .unary
  | p => p

/-- What the grammar reads in an expression. -/
inductive Phrase where
  /-- An expression whose operators bind at least as tightly as `p`. -/
  | tier (p : Precedence) (e : Expr)
  /-- The same on a level of its own. -/
  | nested (p : Precedence) (e : Expr)
  /-- An atom with its suffixes. -/
  | suffixed (e : Expr)
  /-- One whole expression or more, with commas between them. -/
  | list (es : List Expr)
  /-- Such a list, or nothing. -/
  | items (es : List Expr)

/-- Every level counts where it is opened: a nested phrase and a unary operator open one. -/
inductive Phrase.Reads : Phrase → Nat → List Token → List Token → Prop
  | nested {p : Precedence} {e : Expr} {n : Nat} {ts us : List Token}
      (h : (tier p e).Reads n ts us) : (nested p e).Reads (n + 1) ts us
  | looser {p : Precedence} {e : Expr} {n : Nat} {ts us : List Token}
      (h : (tier p.tighter e).Reads n ts us) : (tier p e).Reads n ts us
  | binary {op : BinaryOp} {t : Token} {l r : Expr} {n m : Nat} {ts us vs : List Token}
      (hleft : (tier op.precedence.leftOperand l).Reads n ts (t :: us)) (hop : t.kind = op.kind)
      (hright : (nested op.precedence.rightOperand r).Reads m us vs) :
      (tier op.precedence (.binary l.position op l r)).Reads (max n m) ts vs
  | unary {op : UnaryOp} {t : Token} {e : Expr} {n : Nat} {ts us : List Token}
      (hop : t.kind = op.kind) (h : (tier .unary e).Reads n ts us) :
      (tier .unary (.unary t.position op e)).Reads (n + 1) (t :: ts) us
  | operand {e : Expr} {n : Nat} {ts us : List Token} (h : (suffixed e).Reads n ts us) :
      (tier .unary e).Reads n ts us
  | primary {t : Token} {e : Expr} {ts : List Token} (h : Expr.ofToken t = .ok e) :
      (suffixed e).Reads 0 (t :: ts) ts
  | group {t u : Token} {e : Expr} {n : Nat} {ts us : List Token}
      (hopen : t.kind = .mark .openParen) (h : (nested .lowest e).Reads n ts (u :: us))
      (hclose : u.kind = .mark .closeParen) : (suffixed e).Reads n (t :: ts) us
  | array {t u : Token} {es : List Expr} {n : Nat} {ts us : List Token}
      (hopen : t.kind = .mark .openBracket) (h : (items es).Reads n ts (u :: us))
      (hclose : u.kind = .mark .closeBracket) :
      (suffixed (.array t.position es)).Reads n (t :: ts) us
  | call {t u : Token} {e : Expr} {es : List Expr} {n m : Nat} {ts us vs : List Token}
      (hcallee : (suffixed e).Reads n ts (t :: us)) (hopen : t.kind = .mark .openParen)
      (h : (items es).Reads m us (u :: vs)) (hclose : u.kind = .mark .closeParen) :
      (suffixed (.call e.position e es)).Reads (max n m) ts vs
  | subscript {t u : Token} {e i : Expr} {n m : Nat} {ts us vs : List Token}
      (hobject : (suffixed e).Reads n ts (t :: us)) (hopen : t.kind = .mark .openBracket)
      (h : (nested .lowest i).Reads m us (u :: vs)) (hclose : u.kind = .mark .closeBracket) :
      (suffixed (.subscript e.position e i)).Reads (max n m) ts vs
  | member {t u : Token} {e : Expr} {n : Nat} {ts us : List Token}
      (hobject : (suffixed e).Reads n ts (t :: u :: us)) (hdot : t.kind = .mark .dot)
      (hname : u.kind = .identifier) :
      (suffixed (.member e.position e u.lexeme)).Reads n ts us
  | last {e : Expr} {n : Nat} {ts us : List Token} (h : (nested .lowest e).Reads n ts us) :
      (list [e]).Reads n ts us
  | more {t : Token} {e : Expr} {es : List Expr} {n m : Nat} {ts us vs : List Token}
      (h : (nested .lowest e).Reads n ts (t :: us)) (hcomma : t.kind = .mark .comma)
      (hothers : (list es).Reads m us vs) : (list (e :: es)).Reads (max n m) ts vs
  | none {ts : List Token} : (items []).Reads 0 ts ts
  | some {es : List Expr} {n : Nat} {ts us : List Token} (h : (list es).Reads n ts us) :
      (items es).Reads n ts us

/-- A token of this kind goes on neither with an operand nor with an expression whose operators
bind at least as tightly as `p`. -/
def Kind.Ends (p : Precedence) (k : Kind) : Prop :=
  k.suffix? = none ∧ k.binaryOpAbove? p = none

instance (p : Precedence) (k : Kind) : Decidable (k.Ends p) :=
  inferInstanceAs (Decidable (_ ∧ _))

/-- An expression starts with a token of such a kind. -/
def Kind.StartsExpr (k : Kind) : Prop :=
  k.atomForm?.isSome ∨ k.unaryOp?.isSome

/-- An expression of the tier `p` ends before these tokens. -/
abbrev Stops (p : Precedence) (ts : List Token) : Prop :=
  (firstKind ts).Ends p

/-- A whole expression. -/
abbrev Expr.Reads : Reading Expr :=
  fun e ↦ (Phrase.nested .lowest e).Reads

namespace Precedence

theorem rank_tighter {p : Precedence} (hp : p ≠ .unary) : p.tighter.rank = p.rank + 1 := by
  cases p <;> first | rfl | exact absurd rfl hp

theorem rank_injective {p q : Precedence} (h : p.rank = q.rank) : p = q := by
  cases p <;> cases q <;> first | rfl | exact absurd h (by decide)

theorem rank_le_unary (p : Precedence) : p.rank ≤ Precedence.unary.rank := by
  cases p <;> decide

/-- An operator that the right operand of another leaves over takes what the other makes as its
left operand. -/
theorem leftOperand_le_of_lt_rightOperand {op : BinaryOp} {p : Precedence}
    (h : ¬p.rightOperand ≤ op.precedence) : op.precedence.leftOperand ≤ p := by
  revert h
  cases op <;> cases p <;> decide

end Precedence

theorem Expr.atomForm?_of_ofToken {t : Token} {e : Expr} (h : ofToken t = .ok e) :
    t.kind.atomForm? = some .primary := by
  unfold ofToken at h
  split at h
  all_goals first | (simp only [*]; rfl) | cases h

theorem Kind.binaryOpAbove?_eq_some_iff {p : Precedence} {k : Kind} {op : BinaryOp} :
    k.binaryOpAbove? p = some op ↔ k = op.kind ∧ p ≤ op.precedence := by
  rw [binaryOpAbove?, Option.filter_eq_some_iff, binaryOp?_eq_some_iff, decide_eq_true_iff]

namespace Phrase

/-- A phrase of a level is one of every looser level. -/
theorem Reads.loosen {p q : Precedence} {e : Expr} {n : Nat} {ts us : List Token}
    (h : (tier p e).Reads n ts us) (hq : q ≤ p) : (tier q e).Reads n ts us := by
  obtain ⟨k, hk⟩ := Nat.exists_eq_add_of_le (Precedence.le_iff_rank_le.mp hq)
  induction k generalizing q with
  | zero => rwa [Precedence.rank_injective hk.symm]
  | succ k ih =>
      have hne : q ≠ .unary := by
        rintro rfl
        have := p.rank_le_unary
        omega
      have hrank := Precedence.rank_tighter hne
      apply Reads.looser
      apply ih
      · rw [Precedence.le_iff_rank_le]
        omega
      · omega

theorem Reads.suffix {ph : Phrase} {n : Nat} {ts us : List Token} (h : ph.Reads n ts us) :
    us <:+ ts := by
  induction h with
  | nested _ ih | looser _ ih | operand _ ih | last _ ih | some _ ih => exact ih
  | none => exact List.suffix_rfl
  | primary _ => exact List.suffix_cons _ _
  | unary _ _ ih => exact ih.trans (List.suffix_cons _ _)
  | binary _ _ _ ihl ihr | more _ _ _ ihl ihr =>
      exact (ihr.trans (List.suffix_cons _ _)).trans ihl
  | group _ _ _ ih | array _ _ _ ih =>
      exact ((List.suffix_cons _ _).trans ih).trans (List.suffix_cons _ _)
  | call _ _ _ _ ihl ihr | subscript _ _ _ _ ihl ihr =>
      exact (((List.suffix_cons _ _).trans ihr).trans (List.suffix_cons _ _)).trans ihl
  | member _ _ _ ih =>
      exact ((List.suffix_cons _ _).trans (List.suffix_cons _ _)).trans ih

/-- Every phrase but the empty list has a token. -/
theorem Reads.length_lt {ph : Phrase} {n : Nat} {ts us : List Token} (h : ph.Reads n ts us)
    (hph : ph ≠ items []) : us.length < ts.length := by
  induction h with
  | nested _ ih | looser _ ih | operand _ ih | last _ ih => exact ih nofun
  | some h ih => exact ih nofun
  | none => exact absurd rfl hph
  | primary _ => exact Nat.lt_succ_self _
  | unary _ _ ih => exact Nat.lt_succ_of_lt (ih nofun)
  | binary _ _ _ ihl ihr | more _ _ _ ihl ihr =>
      exact (ihr nofun).trans ((Nat.lt_succ_self _).trans (ihl nofun))
  | group _ h _ _ | array _ h _ _ =>
      exact Nat.lt_succ_of_le ((Nat.le_succ _).trans h.suffix.length_le)
  | call _ _ h _ ihl _ | subscript _ _ h _ ihl _ =>
      have hinner := h.suffix.length_le
      have hcallee := ihl nofun
      rw [List.length_cons] at hinner hcallee
      omega
  | member _ _ _ ih =>
      have hobject := ih nofun
      rw [List.length_cons, List.length_cons] at hobject
      omega

/-- A phrase starts with a token of such a kind. -/
def Starts : Phrase → Kind → Prop
  | suffixed _, k => k.atomForm?.isSome
  | _, k => k.StartsExpr

theorem Starts.startsExpr {ph : Phrase} {k : Kind} (h : ph.Starts k) : k.StartsExpr := by
  cases ph with
  | suffixed e => exact .inl h
  | _ => exact h

theorem Reads.exists_cons {ph : Phrase} {n : Nat} {ts us : List Token} (h : ph.Reads n ts us)
    (hph : ph ≠ items []) : ∃ t vs, ts = t :: vs ∧ ph.Starts t.kind := by
  induction h with
  | nested _ ih | looser _ ih | last _ ih | some _ ih | member _ _ _ ih | more _ _ _ ih
  | binary _ _ _ ih | call _ _ _ _ ih | subscript _ _ _ _ ih => exact ih nofun
  | operand _ ih =>
      obtain ⟨t, vs, rfl, hatom⟩ := ih nofun
      exact ⟨t, vs, rfl, hatom.startsExpr⟩
  | none => exact absurd rfl hph
  | @unary op t _ _ ts _ hop _ _ =>
      refine ⟨t, ts, rfl, .inr ?_⟩
      rw [hop, Kind.unaryOp?_eq_some_iff.mpr rfl]
      rfl
  | @primary t _ ts htoken =>
      refine ⟨t, ts, rfl, ?_⟩
      rw [Starts, Expr.atomForm?_of_ofToken htoken]
      rfl
  | @group t _ _ _ ts _ hopen _ _ _ | @array t _ _ _ ts _ hopen _ _ _ =>
      refine ⟨t, ts, rfl, ?_⟩
      rw [Starts, hopen]
      rfl

theorem Reads.list_of_separated {es : List Expr} {n : Nat} {ts us : List Token}
    (h : Separated Expr.Reads es n ts us) :
    (list es).Reads n ts us := by
  induction h with
  | last h => exact .last h
  | more h hcomma _ ih => exact .more h hcomma ih

theorem Reads.items_of_listed {es : List Expr} {n : Nat} {ts us : List Token}
    (h : Listed Expr.Reads es n ts us) :
    (items es).Reads n ts us := by
  cases h with
  | none => exact .none
  | some h => exact .some (list_of_separated h)

theorem nested_shrinks (p : Precedence) : Reading.Shrinks fun e ↦ (nested p e).Reads :=
  fun _ _ _ _ h ↦ h.suffix

theorem nested_consumes (p : Precedence) : Reading.Consumes fun e ↦ (nested p e).Reads :=
  fun _ _ _ _ h ↦ h.length_lt nofun

end Phrase
end Offside
