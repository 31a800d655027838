import Mathlib.Data.List.Forall2
import Offside.Proofs.BareReturn

/-!
# Two ways to write a block

A block is written between braces or between an indent and a dedent. Whatever mix of the two a
list of tokens uses, its indents and dedents may be exchanged for braces, and the same program is
read. The other way round fails: line breaks alone may stand between two braces, but not between
an indent and its dedent.
-/

namespace Offside

/-- A brace stands in the place of an indent or a dedent, and any other token for itself. -/
inductive Token.BracedAs : Token → Token → Prop
  | opening {t u : Token} (ht : t.kind = .indent) (hu : u.kind = .mark .openCurly)
      (hposition : u.position = t.position) : BracedAs t u
  | closing {t u : Token} (ht : t.kind = .dedent) (hu : u.kind = .mark .closeCurly)
      (hposition : u.position = t.position) : BracedAs t u
  | other {t : Token} (hindent : t.kind ≠ .indent) (hdedent : t.kind ≠ .dedent) : BracedAs t t

theorem Token.BracedAs.eq {t u : Token} (h : t.BracedAs u) (hindent : t.kind ≠ .indent)
    (hdedent : t.kind ≠ .dedent) : u = t := by
  cases h with
  | opening ht _ _ => exact absurd ht hindent
  | closing ht _ _ => exact absurd ht hdedent
  | other _ _ => rfl

theorem Token.BracedAs.of_indent {t u : Token} (h : t.BracedAs u) (ht : t.kind = .indent) :
    u.kind = .mark .openCurly ∧ u.position = t.position := by
  cases h with
  | opening _ hu hposition => exact ⟨hu, hposition⟩
  | closing hdedent _ _ => simp [ht] at hdedent
  | other hindent _ => exact absurd ht hindent

theorem Token.BracedAs.of_dedent {t u : Token} (h : t.BracedAs u) (ht : t.kind = .dedent) :
    u.kind = .mark .closeCurly := by
  cases h with
  | opening hindent _ _ => simp [ht] at hindent
  | closing _ hu _ => exact hu
  | other _ hdedent => exact absurd ht hdedent

/-- The same tokens with braces for indents and dedents. -/
abbrev BracedAs : List Token → List Token → Prop :=
  List.Forall₂ Token.BracedAs

namespace BracedAs

variable {t : Token} {ts us ts' : List Token}

theorem of_cons (h : BracedAs (t :: ts) ts') (hindent : t.kind ≠ .indent)
    (hdedent : t.kind ≠ .dedent) : ∃ us', ts' = t :: us' ∧ BracedAs ts us' := by
  obtain ⟨u, us', htu, hrest, rfl⟩ := List.forall₂_cons_left_iff.mp h
  exact ⟨us', by rw [htu.eq hindent hdedent], hrest⟩

theorem breaks (hgap : Breaks ts us) (h : BracedAs ts ts') :
    ∃ us', Breaks ts' us' ∧ BracedAs us us' := by
  induction hgap generalizing ts' with
  | refl _ => exact ⟨ts', .refl ts', h⟩
  | cons hkind _ ih =>
      obtain ⟨us', rfl, hrest⟩ := h.of_cons (by simp [hkind]) (by simp [hkind])
      obtain ⟨vs', hgap, hvs⟩ := ih hrest
      exact ⟨vs', .cons hkind hgap, hvs⟩

theorem content (h : BracedAs ts ts') : BracedAs (content ts) (content ts') := by
  induction h with
  | nil => exact .nil
  | @cons t u ts us htu _ ih =>
      by_cases ht : t.kind = .eof
      · obtain rfl := htu.eq (by simp [ht]) (by simp [ht])
        rw [content_cons_of_eof ht, content_cons_of_eof ht]
        exact .nil
      · have hu : u.kind ≠ .eof := by
          cases htu with
          | opening _ hu _ | closing _ hu _ => simp [hu]
          | other _ _ => exact ht
        rw [content_cons_of_ne ht, content_cons_of_ne hu]
        exact .cons htu ih

/-- What ends a statement still does when it becomes a brace. -/
theorem endsBefore {s : Stmt} (hends : s.EndsBefore (firstKind ts)) (h : BracedAs ts ts') :
    s.EndsBefore (firstKind ts') := by
  have hnever {k : Kind} (hk : k = .indent ∨ k = .dedent) (hends : s.EndsBefore k) (p : Position) :
      s ≠ .returning p none := by
    rintro rfl
    rcases hk with rfl | rfl <;> simp [Stmt.EndsBefore] at hends
  cases h with
  | nil => exact hends
  | cons htu _ =>
      rw [firstKind_cons] at hends ⊢
      cases htu with
      | opening ht hu _ =>
          exact s.endsBefore_brace (.inl hu) (hnever (.inl ht) hends)
      | closing ht hu _ =>
          exact s.endsBefore_brace (.inr hu) (hnever (.inr ht) hends)
      | other _ _ => exact hends

end BracedAs

theorem Layout.exact_translates_braces :
    (exact .strict).Translates (exact .strict) BracedAs BracedAs where
  inner := by
    rintro k t ts ts' rfl ht h
    exact h.of_cons ht.isInk.ne_indent ht.isInk.ne_dedent
  returning := by
    intro s n t ts us ts' ht _ _ h
    exact h.of_cons (by simp [ht]) (by simp [ht])
  inside _ _ _ _ h := h
  gap _ _ _ hgap h := BracedAs.breaks hgap (h.elim id id)
  ends _ _ _ _ _ _ _ hends _ _ h := h.endsBefore hends
  brace := by
    intro t ts us ts' hkind hgap hts
    have hne : t.kind ≠ .indent ∧ t.kind ≠ .dedent := by rcases hkind with h | h <;> simp [h]
    obtain ⟨vs', rfl, hvs⟩ := hts.of_cons hne.1 hne.2
    obtain ⟨us', hgap, hus⟩ := hvs.breaks hgap
    exact ⟨vs', us', rfl, hgap, hus⟩
  indented := by
    intro t ts ts' hopen hts
    obtain ⟨t', us', ht, hus, rfl⟩ := List.forall₂_cons_left_iff.mp hts
    obtain ⟨hopen', hposition⟩ := ht.of_indent hopen
    refine ⟨us', hus, ?_⟩
    intro ss n us vs vs' _ hclose h hvs
    cases hclose with
    | dedent hclose =>
        obtain ⟨u', ws', hu, hws, rfl⟩ := List.forall₂_cons_left_iff.mp hvs
        refine ⟨ws', ?_, .inl hws⟩
        rw [← hposition]
        exact .braced hopen' (.refl us') h (hu.of_dedent hclose) (.refl ws')
    | missing hmode _ => simp [exact] at hmode

/-- Braces in the place of all indents and dedents make no difference to what is parsed. -/
theorem parse_of_braced {ts us : List Token} {p : Program} (h : List.Forall₂ Token.BracedAs ts us)
    (hparse : parse .strict ts = .ok p) : parse .strict us = .ok p :=
  parse_of_translates Layout.exact_translates_braces
    (fun _ hnil ↦ List.forall₂_nil_left_iff.mp hnil) hparse (BracedAs.content h)

/-- A braced block inside an indented one. -/
theorem parse_of_braced_class :
    let token (kind : Kind) (lexeme : String) : Token := ⟨kind, lexeme, none, .start⟩
    let opening : List Token := [token (.keyword .classKw) "class", token .identifier "A",
      token (.mark .colon) ":", token .newline "\n"]
    let inside : List Token := [token (.keyword .ifKw) "if", token .identifier "x",
      token (.mark .colon) ":", token (.mark .openCurly) "\x7b", token (.keyword .passKw) "pass",
      token (.mark .closeCurly) "\x7d", token .newline "\n"]
    let ts := opening ++ .layout .indent ⟨2, 1⟩ :: inside ++ [.layout .dedent ⟨3, 1⟩]
    let us := opening ++ ⟨.mark .openCurly, "\x7b", none, ⟨2, 1⟩⟩ :: inside ++
      [⟨.mark .closeCurly, "\x7d", none, ⟨3, 1⟩⟩]
    let p : Program := ⟨[.classDecl .start "A" ⟨⟨2, 1⟩,
      [.conditional .start [⟨.symbol .start "x", ⟨.start, [.pass .start]⟩⟩] none]⟩], .start⟩
    List.Forall₂ Token.BracedAs ts us ∧ parse .strict ts = .ok p ∧ parse .strict us = .ok p := by
  intro token opening inside ts us p
  have hsame : ∀ ws : List Token, (∀ t ∈ ws, t.kind ≠ .indent ∧ t.kind ≠ .dedent) →
      List.Forall₂ Token.BracedAs ws ws :=
    fun _ hws ↦ List.forall₂_same.mpr fun t ht ↦ .other (hws t ht).1 (hws t ht).2
  have hclose : List.Forall₂ Token.BracedAs [.layout .dedent ⟨3, 1⟩]
      [⟨.mark .closeCurly, "\x7d", none, ⟨3, 1⟩⟩] := .cons (.closing rfl rfl rfl) .nil
  have h : List.Forall₂ Token.BracedAs ts us :=
    List.rel_append (hsame opening (by decide))
      (.cons (.opening rfl rfl rfl) (List.rel_append (hsame inside (by decide)) hclose))
  let braces : Block := ⟨.start, [.pass .start]⟩
  let choice : Stmt := .conditional .start [⟨.symbol .start "x", braces⟩] none
  have hcondition : (Expr.symbol .start "x").Reads 1 (ts.drop 6) (ts.drop 7) :=
    .nested (.loosen (.operand (.primary rfl)) (by decide))
  have hpass : (Part.stmt (.pass .start)).Reads (.exact .strict) 0 (ts.drop 9) (ts.drop 10) :=
    .simple (.pass (t := token (.keyword .passKw) "pass") rfl) trivial
  have hbraces : (Part.body braces).Reads (.exact .strict) 1 (ts.drop 7) (ts.drop 12) :=
    .body rfl (Breaks.refl _) (.braced (t := token (.mark .openCurly) "\x7b") rfl (Breaks.refl _)
      (.cons (Breaks.refl _) hpass (Breaks.refl _) .nil) rfl (Breaks.cons rfl (.refl _)))
  have hchoice : (Part.stmt choice).Reads (.exact .strict) 1 (ts.drop 5) (ts.drop 12) :=
    .conditional (t := token (.keyword .ifKw) "if") rfl (.branch hcondition hbraces) .noElse
  have hblock : (Part.block ⟨⟨2, 1⟩, [choice]⟩).Reads (.exact .strict) 2 (ts.drop 4) [] :=
    .indented (t := .layout .indent ⟨2, 1⟩) rfl
      (.cons (Breaks.refl _) hchoice (Breaks.refl _) .nil) rfl
  have hbody : (Part.stmts p.body).Reads (.exact .strict) 2 ts [] :=
    .cons (Breaks.refl _) (.classDecl (t := token (.keyword .classKw) "class")
      (u := token .identifier "A") rfl rfl (.body rfl (Breaks.cons rfl (.refl _)) hblock))
      (Breaks.refl _) .nil
  have hparse : parse .strict ts = .ok p :=
    parse_eq_ok_of_reads ⟨rfl, ts, .refl ts, hbody⟩ (by decide)
  exact ⟨h, hparse, parse_of_braced h hparse⟩

end Offside
