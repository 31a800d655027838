import Offside.Proofs.Parse.Expression

/-!
# Expressions by precedence

From any cursor, an expression whose operators bind at least as tightly as `p` is a phrase of the
tier `p`. A tier below the power operator is a row of phrases of the next tier, grouped to the
left; powers group to the right over operands. What is read is derived on its own, whatever
follows, and it could not have been longer.
-/

namespace Offside

/-- A phrase does not depend on the tokens behind it. -/
theorem Phrase.Reads.exists_used {ph : Phrase} {n : Nat} {ts us : List Token}
    (h : ph.Reads n ts us) : ∃ used, ts = used ++ us ∧ ∀ vs, ph.Reads n (used ++ vs) vs := by
  induction h with
  | nested _ ih =>
      obtain ⟨used, rfl, hread⟩ := ih
      exact ⟨used, rfl, fun vs ↦ .nested (hread vs)⟩
  | looser _ ih =>
      obtain ⟨used, rfl, hread⟩ := ih
      exact ⟨used, rfl, fun vs ↦ .looser (hread vs)⟩
  | @binary op t _ _ _ _ _ _ _ _ hop _ ihl ihr =>
      obtain ⟨left, rfl, hleft⟩ := ihl
      obtain ⟨right, rfl, hright⟩ := ihr
      refine ⟨left ++ t :: right, by simp, fun vs ↦ ?_⟩
      rw [List.append_assoc]
      exact .binary (hleft _) hop (hright vs)
  | @unary _ t _ _ _ _ hop _ ih =>
      obtain ⟨used, rfl, hread⟩ := ih
      exact ⟨t :: used, rfl, fun vs ↦ .unary hop (hread vs)⟩
  | operand _ ih =>
      obtain ⟨used, rfl, hread⟩ := ih
      exact ⟨used, rfl, fun vs ↦ .operand (hread vs)⟩
  | @primary t _ _ htoken => exact ⟨[t], rfl, fun _ ↦ .primary htoken⟩
  | @group t u _ _ _ _ hopen _ hclose ih =>
      obtain ⟨used, rfl, hread⟩ := ih
      refine ⟨t :: used ++ [u], by simp, fun vs ↦ ?_⟩
      rw [List.append_assoc]
      exact .group hopen (hread _) hclose
  | @array t u _ _ _ _ hopen _ hclose ih =>
      obtain ⟨used, rfl, hread⟩ := ih
      refine ⟨t :: used ++ [u], by simp, fun vs ↦ ?_⟩
      rw [List.append_assoc]
      exact .array hopen (hread _) hclose
  | @call t u _ _ _ _ _ _ _ _ hopen _ hclose ihl ihr =>
      obtain ⟨callee, rfl, hcallee⟩ := ihl
      obtain ⟨items, rfl, hitems⟩ := ihr
      refine ⟨callee ++ t :: items ++ [u], by simp, fun vs ↦ ?_⟩
      rw [List.append_assoc, List.append_assoc]
      exact .call (hcallee _) hopen (hitems _) hclose
  | @subscript t u _ _ _ _ _ _ _ _ hopen _ hclose ihl ihr =>
      obtain ⟨object, rfl, hobject⟩ := ihl
      obtain ⟨index, rfl, hindex⟩ := ihr
      refine ⟨object ++ t :: index ++ [u], by simp, fun vs ↦ ?_⟩
      rw [List.append_assoc, List.append_assoc]
      exact .subscript (hobject _) hopen (hindex _) hclose
  | @member t u _ _ _ _ _ hdot hname ih =>
      obtain ⟨object, rfl, hobject⟩ := ih
      refine ⟨object ++ [t, u], by simp, fun vs ↦ ?_⟩
      rw [List.append_assoc]
      exact .member (hobject _) hdot hname
  | last _ ih =>
      obtain ⟨used, rfl, hread⟩ := ih
      exact ⟨used, rfl, fun vs ↦ .last (hread vs)⟩
  | @more t _ _ _ _ _ _ _ _ hcomma _ ihl ihr =>
      obtain ⟨first, rfl, hfirst⟩ := ihl
      obtain ⟨others, rfl, hothers⟩ := ihr
      refine ⟨first ++ t :: others, by simp, fun vs ↦ ?_⟩
      rw [List.append_assoc]
      exact .more (hfirst _) hcomma (hothers vs)
  | none => exact ⟨[], rfl, fun _ ↦ .none⟩
  | some _ ih =>
      obtain ⟨used, rfl, hread⟩ := ih
      exact ⟨used, rfl, fun vs ↦ .some (hread vs)⟩

theorem Kind.suffix?_eq_none_iff {k : Kind} :
    k.suffix? = none ↔ k ≠ .mark .openParen ∧ k ≠ .mark .openBracket ∧ k ≠ .mark .dot := by
  unfold suffix?
  split <;> simp_all

theorem Kind.binaryOpAbove?_eq_none_iff {p : Precedence} {k : Kind} :
    k.binaryOpAbove? p = none ↔ ∀ op : BinaryOp, k = op.kind → ¬ p ≤ op.precedence := by
  rw [Option.eq_none_iff_forall_ne_some]
  constructor
  · intro h op hk hp
    exact h op (binaryOpAbove?_eq_some_iff.mpr ⟨hk, hp⟩)
  · intro h op hop
    obtain ⟨hk, hp⟩ := binaryOpAbove?_eq_some_iff.mp hop
    exact h op hk hp

/-- The tokens that an expression takes derive it from its tier, within the levels that were left.
What follows is neither a suffix nor an operator of the tier or of a tighter one. -/
theorem here_expr_derives {c d : Cursor} {p : Precedence} {e : Expr} (hc : c.stop.kind = .eof)
    (h : Parse.here (·.expr p) c = .ok e d) :
    (∃ used n, c.ahead = used ++ d.ahead ∧ d = c.facing d.ahead ∧ c.depth + n < c.limit ∧
        (Phrase.tier p e).Reads n used []) ∧
      (d.current.kind ≠ .mark .openParen ∧ d.current.kind ≠ .mark .openBracket ∧
        d.current.kind ≠ .mark .dot) ∧
      ∀ op : BinaryOp, d.current.kind = op.kind → ¬ p ≤ op.precedence := by
  have hsound := (Level.ofRoom_readsPhrases c.mode c.room).expr p
  have hrun : (Level.ofRoom c.room).expr p (c.facing c.ahead) = .ok e d := h
  obtain ⟨m, us, hm, ⟨hread, hsuffix, hop⟩, rfl⟩ := hsound ⟨hc, rfl⟩ hrun
  cases hread with
  | @nested _ _ n _ _ hread =>
      obtain ⟨used, hused, hread⟩ := hread.exists_used
      rw [Cursor.kind_current_facing us hc]
      refine ⟨⟨used, n, hused, rfl, ?_, ?_⟩, Kind.suffix?_eq_none_iff.mp hsuffix,
        Kind.binaryOpAbove?_eq_none_iff.mp hop⟩
      · rw [Cursor.room] at hm
        omega
      · rw [← List.append_nil used]
        exact hread []

/-- In `a - b - c ** d == e`, what is as tight as a difference ends before the comparison. -/
theorem here_expr_derives_difference :
    let name (lexeme : String) : Token := ⟨.identifier, lexeme, none, .start⟩
    let sign (m : Mark) : Token := ⟨.mark m, m.spelling, none, .start⟩
    let left := [name "a", sign .dash, name "b", sign .dash, name "c", sign .starStar, name "d"]
    let right := [sign .equals, name "e"]
    let c : Cursor := ⟨left ++ right, .layout .eof .start, [], 0, nestingLimit, .strict⟩
    let symbol (lexeme : String) : Expr := .symbol .start lexeme
    let e : Expr := .binary .start .subtract
      (.binary .start .subtract (symbol "a") (symbol "b"))
      (.binary .start .power (symbol "c") (symbol "d"))
    c.stop.kind = .eof ∧ Parse.here (·.expr .additive) c = .ok e (c.facing right) ∧
      (∃ used n, c.ahead = used ++ right ∧ c.depth + n < c.limit ∧
        (Phrase.tier .additive e).Reads n used []) ∧
      ∀ op : BinaryOp, Kind.mark .equals = op.kind → ¬ Precedence.additive ≤ op.precedence := by
  intro name sign left right c symbol e
  have hc : c.stop.kind = .eof := rfl
  have h : Parse.here (·.expr .additive) c = .ok e (c.facing right) := rfl
  obtain ⟨⟨used, n, hused, -, hn, hread⟩, -, hop⟩ := here_expr_derives hc h
  exact ⟨hc, h, ⟨used, n, hused, hn, hread⟩, hop⟩

end Offside
