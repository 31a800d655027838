import Offside.Proofs.Grammar.Transport
import Offside.Proofs.Grammar.Word
import Offside.Proofs.Parse.Program

/-!
# Parsing is derivation

A parsed program is derived from all the tokens before the first end mark, with line breaks only
around statements, after the colon of a body and next to braces. So the line breaks can be taken
out, and all names, values, keywords and operators are those of the tree, in its order.
-/

namespace Offside

def withoutBreaks (ts : List Token) : List Token :=
  ts.filter (·.kind ≠ .newline)

theorem withoutBreaks_cons_of_ne {t : Token} (h : t.kind ≠ .newline) (ts : List Token) :
    withoutBreaks (t :: ts) = t :: withoutBreaks ts := by
  simp [withoutBreaks, h]

theorem Breaks.withoutBreaks_eq {ts us : List Token} (h : Breaks ts us) :
    withoutBreaks ts = withoutBreaks us := by
  induction h with
  | refl _ => rfl
  | cons hkind _ ih =>
      rw [← ih]
      simp [withoutBreaks, hkind]

theorem Breaks.wordsOf_eq {ts us : List Token} (h : Breaks ts us) : wordsOf ts = wordsOf us := by
  induction h with
  | refl _ => rfl
  | cons hkind _ ih =>
      rw [← ih]
      apply wordsOf_cons_of_none
      rw [Token.word?, hkind]

namespace Layout

theorem exact_carries_lines (mode : Mode) : (exact mode).Carries (lines mode) Eq Eq :=
  .of_map (f := id) id (fun _ _ _ _ ↦ rfl) (fun _ h ↦ h) (fun _ _ h ↦ h) fun _ _ _ ↦ trivial

theorem lines_carries_bare (mode : Mode) : (lines mode).Carries (bare mode)
    (fun ts ts' ↦ withoutBreaks ts = ts') (fun ts ts' ↦ withoutBreaks ts = ts') := by
  have heof : ∀ ts, firstKind ts = .eof → firstKind (withoutBreaks ts) = .eof := by
    intro ts hend
    cases ts with
    | nil => rfl
    | cons t ts =>
        rw [firstKind_cons] at hend
        rw [withoutBreaks_cons_of_ne (by simp [hend])]
        exact hend
  have hgap : ∀ ts us, Breaks ts us → withoutBreaks ts = withoutBreaks us :=
    fun _ _ h ↦ h.withoutBreaks_eq
  exact .of_map id (fun _ ts hne _ ↦ withoutBreaks_cons_of_ne hne ts) heof hgap
    fun _ _ _ ↦ trivial

end Layout

/-- What a parser accepts is derived token by token, on as many levels as it may open. -/
theorem parse_derives {mode : Mode} {ts : List Token} {p : Program}
    (h : parse mode ts = .ok p) :
    (∃ n ≤ nestingLimit, p.Reads (.lines mode) n (content ts) ∧
      p.Reads (.bare mode) n (withoutBreaks (content ts))) ∧
      wordsOf (content ts) = p.words := by
  obtain ⟨n, hn, hread⟩ := Program.Reads.of_parse_eq_ok h
  have hlines : p.Reads (.lines mode) n (content ts) :=
    hread.carry (Layout.exact_carries_lines mode) (fun _ h ↦ h.symm) rfl
  have hbare : p.Reads (.bare mode) n (withoutBreaks (content ts)) :=
    hlines.carry (Layout.lines_carries_bare mode) (fun _ h ↦ h.symm) rfl
  refine ⟨⟨n, hn, hlines, hbare⟩, ?_⟩
  obtain ⟨-, us, hgap, hbody⟩ := hlines
  have hwords := hbody.words_eq fun _ _ h ↦ Breaks.wordsOf_eq h
  rw [Breaks.wordsOf_eq hgap, hwords, wordsOf_nil, List.append_nil]
  rfl

/-- An assignment to a name, with line breaks around it. -/
theorem parse_derives_assignment :
    let token (kind : Kind) (lexeme : String) : Token := ⟨kind, lexeme, none, .start⟩
    let ts := [token .newline "\n", token .identifier "x", token (.mark .assign) "=",
      ⟨.integer, "1", some (.integer 1), .start⟩, token .newline "\n"]
    let p : Program :=
      ⟨[.assignment .start (.symbol .start "x") .assign (.integer .start 1)], .start⟩
    parse .strict ts = .ok p ∧
      (∃ n ≤ nestingLimit, p.Reads (.lines .strict) n ts ∧
        p.Reads (.bare .strict) n (ts.drop 1).dropLast) ∧
      wordsOf ts = [.name "x", .sign (.mark .assign), .value (.integer 1)] := by
  intro token ts p
  have h : parse .strict ts = .ok p := rfl
  exact ⟨h, parse_derives h⟩

end Offside
