import Mathlib.Logic.Relation
import Offside.Proofs.BareReturn

/-!
# Line breaks around braces

A line break says nothing behind a brace, in front of a closing brace or next to another line
break. Two lists of tokens that differ in such line breaks only are equal once they are tidied, and
then the same program is read from both. There is one exception: a `return` alone is not ended by
a closing brace, so the line break between the two is needed.
-/

namespace Offside

def Kind.isBrace (k : Kind) : Bool :=
  k = .mark .openCurly ∨ k = .mark .closeCurly

/-- One line break is put in behind a brace or a line break, or in front of a closing brace. -/
inductive AddsBreak : List Token → List Token → Prop
  | behind {t b : Token} {ts : List Token} (ht : t.kind = .newline ∨ t.kind.isBrace)
      (hb : b.kind = .newline) : AddsBreak (t :: ts) (t :: b :: ts)
  | before {b t : Token} {ts : List Token} (hb : b.kind = .newline)
      (ht : t.kind = .newline ∨ t.kind = .mark .closeCurly) : AddsBreak (t :: ts) (b :: t :: ts)
  | later {t : Token} {ts us : List Token} (h : AddsBreak ts us) : AddsBreak (t :: ts) (t :: us)

/-- Of line breaks in a row at most one is left, and none next to a brace where it says nothing.
No line break is left in front either if the list is `quiet`. -/
def tidy : Bool → List Token → List Token
  | _, [] => []
  | quiet, t :: ts =>
      if t.kind = .newline then
        if quiet ∨ firstKind (tidy true ts) = .mark .closeCurly then tidy true ts
        else .layout .newline .start :: tidy true ts
      else t :: tidy t.kind.isBrace ts

section

variable {t : Token} {ts us : List Token} {quiet : Bool}

theorem tidy_cons_of_eq (h : t.kind = .newline) (quiet : Bool) (ts : List Token) :
    tidy quiet (t :: ts) = if quiet ∨ firstKind (tidy true ts) = .mark .closeCurly
      then tidy true ts else .layout .newline .start :: tidy true ts := by
  rw [tidy, if_pos h]

theorem tidy_cons_of_ne (h : t.kind ≠ .newline) (quiet : Bool) (ts : List Token) :
    tidy quiet (t :: ts) = t :: tidy t.kind.isBrace ts := by
  rw [tidy, if_neg h]

theorem tidy_true_cons_of_eq (h : t.kind = .newline) (ts : List Token) :
    tidy true (t :: ts) = tidy true ts := by
  simp [tidy_cons_of_eq h]

theorem firstKind_tidy (h : firstKind ts ≠ .newline) (quiet : Bool) :
    firstKind (tidy quiet ts) = firstKind ts := by
  cases ts with
  | nil => rfl
  | cons t ts => rw [tidy_cons_of_ne h, firstKind_cons, firstKind_cons]

theorem firstKind_tidy_true_ne (ts : List Token) : firstKind (tidy true ts) ≠ .newline := by
  induction ts with
  | nil => exact nofun
  | cons t ts ih =>
      by_cases h : t.kind = .newline
      · rwa [tidy_true_cons_of_eq h]
      · rwa [tidy_cons_of_ne h, firstKind_cons]

/-- A list without the line breaks in front is tidied like the list as a quiet one. -/
theorem skipBreaks_tidy (quiet : Bool) (ts : List Token) :
    skipBreaks (tidy quiet ts) = tidy true ts := by
  cases ts with
  | nil => rfl
  | cons t ts =>
      have hrest := skipBreaks_of_firstKind_ne (firstKind_tidy_true_ne ts)
      by_cases h : t.kind = .newline
      · rw [tidy_true_cons_of_eq h, tidy_cons_of_eq h]
        split
        · exact hrest
        · rw [skipBreaks_cons_of_eq rfl, hrest]
      · rw [tidy_cons_of_ne h, skipBreaks_cons_of_ne h, tidy_cons_of_ne h]

theorem tidy_true_eq (h : tidy quiet ts = tidy quiet us) : tidy true ts = tidy true us := by
  rw [← skipBreaks_tidy quiet ts, h, skipBreaks_tidy]

theorem Breaks.tidy_eq (h : Breaks ts us) : tidy true ts = tidy true us := by
  induction h with
  | refl _ => rfl
  | cons hkind _ ih => rw [tidy_true_cons_of_eq hkind, ih]

/-- In front of a line break a tidied list starts with a line break or with a closing brace. -/
theorem firstKind_tidy_of_eq (h : firstKind ts = .newline) :
    firstKind (tidy false ts) = .newline ∨ firstKind (tidy false ts) = .mark .closeCurly := by
  cases ts with
  | nil => simp at h
  | cons t ts =>
      rw [tidy_cons_of_eq h]
      split
      · next hclose => exact .inr (hclose.resolve_left nofun)
      · exact .inl rfl

theorem firstKind_eq_of_tidy (h : tidy false ts = tidy false us) (hbreak : firstKind us ≠ .newline)
    (hclose : firstKind us ≠ .mark .closeCurly) : firstKind ts = firstKind us := by
  have hus := firstKind_tidy hbreak false
  by_cases hts : firstKind ts = .newline
  · rcases firstKind_tidy_of_eq hts with hfirst | hfirst
    · exact absurd (hus.symm.trans (h ▸ hfirst)) hbreak
    · exact absurd (hus.symm.trans (h ▸ hfirst)) hclose
  · rw [← firstKind_tidy hts false, h, hus]

theorem exists_cons_of_tidy (h : tidy quiet (t :: ts) = tidy quiet us) (ht : t.kind ≠ .newline)
    (hus : firstKind us ≠ .newline) :
    ∃ vs, us = t :: vs ∧ tidy t.kind.isBrace ts = tidy t.kind.isBrace vs := by
  rw [tidy_cons_of_ne ht] at h
  cases us with
  | nil => cases h
  | cons u vs =>
      rw [tidy_cons_of_ne hus] at h
      obtain ⟨rfl, h⟩ := List.cons.inj h
      exact ⟨vs, rfl, h⟩

end

namespace AddsBreak

variable {ts us : List Token}

theorem tidy_eq (h : AddsBreak ts us) (quiet : Bool) : tidy quiet ts = tidy quiet us := by
  induction h generalizing quiet with
  | @behind t b ts ht hb =>
      by_cases h : t.kind = .newline
      · rw [tidy_cons_of_eq h, tidy_cons_of_eq h, tidy_true_cons_of_eq hb]
      · rw [tidy_cons_of_ne h, tidy_cons_of_ne h, ht.resolve_left h, tidy_true_cons_of_eq hb]
  | @before b t ts hb ht =>
      by_cases h : t.kind = .newline
      · rw [tidy_cons_of_eq h, tidy_cons_of_eq hb, tidy_true_cons_of_eq h]
      · rw [tidy_cons_of_eq hb, tidy_cons_of_ne h, tidy_cons_of_ne h, firstKind_cons,
          if_pos (.inr (ht.resolve_left h))]
  | @later t ts us _ ih =>
      by_cases h : t.kind = .newline
      · rw [tidy_cons_of_eq h, tidy_cons_of_eq h, ih true]
      · rw [tidy_cons_of_ne h, tidy_cons_of_ne h, ih]

/-- A line break that is put in behind the end mark is not read. -/
theorem content (h : AddsBreak ts us) :
    AddsBreak (content ts) (content us) ∨ content ts = content us := by
  induction h with
  | @behind t b ts ht hb =>
      have hne : t.kind ≠ .eof := by
        rintro h
        simp [h, Kind.isBrace] at ht
      rw [content_cons_of_ne hne, content_cons_of_ne hne, content_cons_of_ne (by simp [hb])]
      exact .inl (.behind ht hb)
  | @before b t ts hb ht =>
      have hne : t.kind ≠ .eof := by rcases ht with ht | ht <;> simp [ht]
      rw [content_cons_of_ne (t := b) (by simp [hb]), content_cons_of_ne hne]
      exact .inl (.before hb ht)
  | @later t ts us _ ih =>
      by_cases h : t.kind = .eof
      · exact .inr (by rw [content_cons_of_eof h, content_cons_of_eof h])
      · rw [content_cons_of_ne h, content_cons_of_ne h]
        exact ih.imp .later fun h ↦ by rw [h]

end AddsBreak

theorem tidy_content_eq {ts us : List Token} (h : Relation.EqvGen AddsBreak ts us) :
    tidy false (content ts) = tidy false (content us) := by
  induction h with
  | rel _ _ h =>
      rcases h.content with h | h
      · exact h.tidy_eq false
      · rw [h]
  | refl _ => rfl
  | symm _ _ _ ih => exact ih.symm
  | trans _ _ _ _ _ ihl ihr => exact ihl.trans ihr

/-- Tidied, the lists are equal, and on the right no `return` needs the line break behind it. -/
def TidyAlike (ts us : List Token) : Prop :=
  tidy false ts = tidy false us ∧ ¬ ReturnBefore (.mark .closeCurly) us

/-- The same but for line breaks in front of the left list. -/
def TidyAlikeBehind (ts us : List Token) : Prop :=
  tidy true ts = tidy true us ∧ firstKind us ≠ .newline ∧ ¬ ReturnBefore (.mark .closeCurly) us

section

variable {s : Stmt} {n : Nat} {t : Token} {ts us vs ws : List Token}

theorem TidyAlikeBehind.of_cons (h : TidyAlikeBehind (t :: ts) us) (ht : t.kind ≠ .newline) :
    ∃ vs, us = t :: vs ∧ tidy t.kind.isBrace ts = tidy t.kind.isBrace vs ∧
      ¬ ReturnBefore (.mark .closeCurly) vs := by
  obtain ⟨vs, rfl, heq⟩ := exists_cons_of_tidy h.1 ht h.2.1
  exact ⟨vs, rfl, heq, fun hlater ↦ h.2.2 (.later hlater)⟩

theorem TidyAlikeBehind.tidyAlike (h : TidyAlikeBehind (t :: ts) us) (ht : t.kind ≠ .newline) :
    TidyAlike (t :: ts) us := by
  refine ⟨?_, h.2.2⟩
  obtain ⟨vs, rfl, heq, -⟩ := h.of_cons ht
  rw [tidy_cons_of_ne ht, tidy_cons_of_ne ht, heq]

theorem TidyAlike.of_cons (h : TidyAlike (t :: ts) us) (ht : t.kind ≠ .newline)
    (hbrace : t.kind.isBrace = false) : ∃ vs, us = t :: vs ∧ TidyAlike ts vs := by
  have hclose : t.kind ≠ .mark .closeCurly := by
    intro hkind
    simp [hkind, Kind.isBrace] at hbrace
  have hfirst := firstKind_eq_of_tidy h.1.symm ht hclose
  obtain ⟨vs, rfl, heq⟩ := exists_cons_of_tidy h.1 ht (hfirst.trans_ne ht)
  rw [hbrace] at heq
  exact ⟨vs, rfl, heq, fun hlater ↦ h.2 (.later hlater)⟩

theorem TidyAlikeBehind.of_breaks (hgap : Breaks ts vs) (heq : tidy true ts = tidy true us)
    (hbefore : ¬ ReturnBefore (.mark .closeCurly) us) :
    ∃ ws, Breaks us ws ∧ TidyAlikeBehind vs ws := by
  have hskip := breaks_skipBreaks us
  refine ⟨skipBreaks us, hskip, ?_, firstKind_skipBreaks_ne us,
    fun hlater ↦ hbefore (hlater.of_suffix hskip.suffix)⟩
  rw [← hgap.tidy_eq, heq, hskip.tidy_eq]

/-- A closing brace ends every statement where the line break is left out. -/
theorem TidyAlike.endsBefore (hends : s.EndsBefore (firstKind vs)) (h : s.Simple n us ws)
    (hus : ¬ ReturnBefore (.mark .closeCurly) us) (hvs : TidyAlike vs ws) :
    s.EndsBefore (firstKind ws) := by
  by_cases hbreak : firstKind ws = .newline
  · rw [hbreak]
    exact s.endsBefore_of_not_isInk id (.inr (.inl rfl))
  by_cases hclose : firstKind ws = .mark .closeCurly
  · refine s.endsBefore_brace (.inr hclose) ?_
    rintro p rfl
    cases h with
    | returning hreturn => exact hus (.here hreturn hclose)
  · rwa [← firstKind_eq_of_tidy hvs.1 hbreak hclose]

end

theorem Layout.Dedents.firstKind {L : Layout} {ts us : List Token} (h : L.Dedents ts us) :
    firstKind ts = .dedent ∨ firstKind ts = .eof := by
  cases h with
  | dedent hkind => exact .inl hkind
  | missing _ hend => exact .inr hend

/-- The first of some statements may have line breaks in front. -/
theorem Part.Reads.of_breaks {L : Layout} (hL : L.gap = Breaks) {ss : List Stmt} {n : Nat}
    {ts us vs : List Token} (h : (stmts ss).Reads L n us vs) (hgap : Breaks ts us)
    (hnil : ss = [] → us = ts) : (stmts ss).Reads L n ts vs := by
  cases h with
  | nil =>
      rw [← hnil rfl]
      exact .nil
  | cons hbefore h hafter hothers =>
      rw [hL] at hbefore
      exact .cons (hL ▸ hgap.trans hbefore) h hafter hothers

theorem Layout.exact_translates_tidy (mode : Mode) :
    (exact mode).Translates (exact mode) TidyAlike TidyAlikeBehind where
  inner := by
    rintro k t ts us rfl ht h
    refine h.of_cons ht.isInk.ne_newline ?_
    by_contra hbrace
    rw [Bool.not_eq_false, Kind.isBrace, decide_eq_true_iff] at hbrace
    rcases hbrace with hbrace | hbrace <;> simp [hbrace, Kind.IsInner] at ht
  returning := by
    intro s n t ts us ts' ht _ _ h
    exact h.of_cons (by simp [ht]) (by simp [ht, Kind.isBrace])
  inside _ _ _ ht h := h.tidyAlike ht
  gap _ _ _ hgap h :=
    TidyAlikeBehind.of_breaks hgap (h.elim (fun h ↦ tidy_true_eq h.1) (·.1)) (h.elim (·.2) (·.2.2))
  ends _ _ _ _ _ _ _ hends h hts hus := hus.endsBefore hends h hts.2
  brace := by
    intro t ts us ts' hkind hgap hts
    obtain ⟨vs', rfl, heq, hbefore⟩ := hts.of_cons (by rcases hkind with h | h <;> simp [h])
    obtain ⟨us', hgap, hus⟩ := TidyAlikeBehind.of_breaks hgap (tidy_true_eq heq) hbefore
    exact ⟨vs', us', rfl, hgap, hus⟩
  indented := by
    intro t ts ts' hopen hts
    obtain ⟨us', rfl, heq, hbefore⟩ := hts.of_cons (by simp [hopen])
    simp only [hopen, Kind.isBrace] at heq
    -- Line breaks behind an indent belong to the first statement.
    obtain ⟨vs', hgap, hvs⟩ := TidyAlikeBehind.of_breaks (.refl ts) (tidy_true_eq heq) hbefore
    refine ⟨vs', hvs, ?_⟩
    intro ss n us vs ws' hleft hclose h hws
    have hread : (Part.stmts ss).Reads (exact mode) n us' ws' := by
      refine h.of_breaks rfl hgap ?_
      rintro rfl
      cases hleft
      have hfirst : firstKind us' = firstKind ts := by
        rcases hclose.firstKind with hkind | hkind <;>
          exact firstKind_eq_of_tidy heq.symm (by simp [hkind]) (by simp [hkind])
      refine hgap.eq_of_ne ?_
      rw [hfirst]
      rcases hclose.firstKind with hkind | hkind <;> simp [hkind]
    cases hclose with
    | dedent hclose =>
        obtain ⟨xs', rfl, heq, hbefore⟩ := hws.of_cons (by simp [hclose])
        simp only [hclose, Kind.isBrace] at heq
        exact ⟨xs', .indented hopen hread hclose, .inl ⟨heq, hbefore⟩⟩
    | missing hmode hend =>
        have hend' : firstKind ws' = .eof := by
          rw [← firstKind_tidy hws.2.1 true, ← hws.1, firstKind_tidy (by simp [hend]), hend]
        exact ⟨ws', .unclosed hmode hopen hread hend', .inr hws⟩

/-- What differs in line breaks around braces only is parsed alike, exactly if no `return` stands
in front of a closing brace. -/
theorem parse_iff_of_addsBreak {mode : Mode} {ts us : List Token} {p : Program}
    (h : Relation.EqvGen AddsBreak ts us) (hparse : parse mode ts = .ok p) :
    parse mode us = .ok p ↔ ¬ ReturnBefore (.mark .closeCurly) (content us) := by
  constructor
  · intro hus
    obtain ⟨n, -, hread⟩ := Program.Reads.of_parse_eq_ok hus
    exact hread.not_returnBefore (.inr rfl)
  · intro hus
    refine parse_of_translates (Layout.exact_translates_tidy mode) ?_ hparse
      ⟨tidy_content_eq h, hus⟩
    rintro us' ⟨hnil, hne, -⟩
    cases us' with
    | nil => rfl
    | cons u us' =>
        rw [tidy_cons_of_ne hne] at hnil
        cases hnil

/-- The body of a function is a `return` between braces, with the closing brace on the next line or
on the same line. -/
theorem parse_iff_of_addsBreak_return :
    let token (kind : Kind) (lexeme : String) : Token := ⟨kind, lexeme, none, .start⟩
    let opening : List Token := [token (.keyword .defKw) "def", token .identifier "f",
      token (.mark .openParen) "(", token (.mark .closeParen) ")", token (.mark .colon) ":",
      token (.mark .openCurly) "\x7b", token (.keyword .returnKw) "return"]
    let closing := token (.mark .closeCurly) "\x7d"
    let ts := opening ++ [token .newline "\n", closing]
    let us := opening ++ [closing]
    let p : Program := ⟨[.fnDecl .start "f" [] none ⟨.start, [.returning .start none]⟩], .start⟩
    Relation.EqvGen AddsBreak ts us ∧ parse .strict ts = .ok p ∧ parse .strict us ≠ .ok p ∧
      (parse .strict us = .ok p ↔ ¬ ReturnBefore (.mark .closeCurly) (content us)) := by
  intro token opening closing ts us p
  have h : Relation.EqvGen AddsBreak ts us := by
    have hbreak : AddsBreak [closing] [token .newline "\n", closing] := .before rfl (.inr rfl)
    have hadds : AddsBreak us ts :=
      .later (.later (.later (.later (.later (.later (.later hbreak))))))
    exact .symm _ _ (.rel _ _ hadds)
  have hparse : parse .strict ts = .ok p := by rfl
  have hbefore : ReturnBefore (.mark .closeCurly) (content us) :=
    .later (.later (.later (.later (.later (.later (.here rfl rfl))))))
  have hiff := parse_iff_of_addsBreak h hparse
  exact ⟨h, hparse, fun hus ↦ hiff.mp hus hbefore, hiff⟩

end Offside
