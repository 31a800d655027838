import Mathlib.Order.Monotone.Defs
import Offside.Proofs.LexicalFault
import Offside.Proofs.Scan.Alike
import Offside.Proofs.Scan.Relaid

/-!
# Indenting otherwise

A scan compares the widths of lines and does not count with them. So the lines of a source can be
given other widths in the same order, by other blanks, and the source has the same tokens. Only a
fault that names a width names the other one.
-/

namespace Offside

open Lexeme Piece

/-- The blanks in front of each line with tokens are replaced. Where they were `w` wide they are
now `f w` wide. The flag tells whether the texts begin at the start of a line. Lines that go on
with a string have no blanks to replace, nor have lines without tokens. -/
inductive Reindented (f : Nat → Nat) : Bool → List Char → List Char → Prop
  | idle {line cs ds : List Char} (hidle : Idle line) (h : Reindented f true cs ds) :
      Reindented f true (line ++ '\n' :: cs) (line ++ '\n' :: ds)
  | lastIdle {line : List Char} (hidle : Idle line) : Reindented f true line line
  | row {blanks blanks' cs ds : List Char} {c : Char} (hblanks : ∀ b ∈ blanks, isBlank b)
      (hblanks' : ∀ b ∈ blanks', isBlank b) (hwidth : indentWidth blanks' = f (indentWidth blanks))
      (hlead : Leads c) (h : Reindented f false (c :: cs) (c :: ds)) :
      Reindented f true (blanks ++ c :: cs) (blanks' ++ c :: ds)
  | done : Reindented f false [] []
  | lineBreak {cs ds : List Char} (h : Reindented f true cs ds) :
      Reindented f false ('\n' :: cs) ('\n' :: ds)
  | comment {note cs ds : List Char} (hnote : '\n' ∉ note) (h : Reindented f true cs ds) :
      Reindented f false ('#' :: (note ++ '\n' :: cs)) ('#' :: (note ++ '\n' :: ds))
  | lastComment {note : List Char} (hnote : '\n' ∉ note) :
      Reindented f false ('#' :: note) ('#' :: note)
  | string {quote : Char} {body text cs ds : List Char} (hquote : isQuote quote)
      (hbody : Decodes quote body text) (h : Reindented f false cs ds) :
      Reindented f false (quote :: (body ++ quote :: cs)) (quote :: (body ++ quote :: ds))
  | unfinished {quote : Char} {cs : List Char} (hquote : isQuote quote)
      (hopen : ∀ body rest, ¬ Unescaped quote cs body rest) :
      Reindented f false (quote :: cs) (quote :: cs)
  | plain {c : Char} {cs ds : List Char} (hbreak : c ≠ '\n') (hnote : c ≠ '#')
      (hquote : ¬ isQuote c) (h : Reindented f false cs ds) :
      Reindented f false (c :: cs) (c :: ds)

namespace Reindented

variable {f : Nat → Nat} {c : Char} {cs ds : List Char}

/-- In a line the first character stays. -/
theorem exists_cons (h : Reindented f false (c :: cs) ds) : ∃ es, ds = c :: es := by
  cases h <;> exact ⟨_, rfl⟩

/-- Every text can be given the widths that `f` says, by any blanks of these widths. -/
theorem exists_of_widths {blanks : Nat → List Char} (hblanks : ∀ w, ∀ b ∈ blanks w, isBlank b)
    (hwidth : ∀ w, indentWidth (blanks w) = f w) (lineStart : Bool) (cs : List Char) :
    ∃ ds, Reindented f lineStart cs ds := by
  induction hn : 2 * cs.length + lineStart.toNat using Nat.strong_induction_on
    generalizing lineStart cs with
  | _ n ih =>
    have hnext (b : Bool) (ds : List Char) (h : 2 * ds.length + b.toNat < n) :
        ∃ es, Reindented f b ds es :=
      ih _ h b ds rfl
    subst hn
    cases lineStart with
    | true =>
        rcases Scan.start_cases cs with hidle | ⟨line, rest, rfl, hidle⟩ |
          ⟨front, c, rest, rfl, hfront, hlead⟩
        · exact ⟨cs, .lastIdle hidle⟩
        · obtain ⟨es, hes⟩ := hnext true rest (by simp; omega)
          exact ⟨_, .idle hidle hes⟩
        · obtain ⟨es, hes⟩ := hnext false (c :: rest) (by simp)
          obtain ⟨es, rfl⟩ := hes.exists_cons
          exact ⟨_, .row hfront (hblanks (indentWidth front)) (hwidth _) hlead hes⟩
    | false =>
        cases cs with
        | nil => exact ⟨[], .done⟩
        | cons c cs =>
            by_cases hbreak : c = '\n'
            · subst hbreak
              obtain ⟨es, hes⟩ := hnext true cs (by simp; omega)
              exact ⟨_, .lineBreak hes⟩
            by_cases hnote : c = '#'
            · subst hnote
              by_cases hin : '\n' ∈ cs
              · obtain ⟨note, rest, rfl, hnote⟩ := List.eq_append_cons_of_mem hin
                obtain ⟨es, hes⟩ := hnext true rest (by simp; omega)
                exact ⟨_, .comment hnote hes⟩
              · exact ⟨_, .lastComment hin⟩
            by_cases hquote : isQuote c
            · by_cases hclosed : ∃ body rest, Unescaped c cs body rest
              · obtain ⟨body, rest, h⟩ := hclosed
                obtain ⟨body, rest, hends⟩ := h.exists_endsAt
                obtain rfl := hends.split
                obtain ⟨es, hes⟩ := hnext false rest (by simp; omega)
                exact ⟨_, .string hquote hends.decodes hes⟩
              · simp only [not_exists] at hclosed
                exact ⟨_, .unfinished hquote hclosed⟩
            · obtain ⟨es, hes⟩ := hnext false cs (by simp)
              exact ⟨_, .plain hbreak hnote hquote hes⟩

theorem abreast (h : Reindented f false cs ds) :
    Abreast (fun c ↦ c = '\n' ∨ c = '#' ∨ isQuote c) (Reindented f false) cs ds := by
  cases h with
  | done => exact .nil
  | lineBreak _ => exact .parts (.inl rfl) (.inl rfl)
  | comment _ _ | lastComment _ => exact .parts (.inr (.inl rfl)) (.inr (.inl rfl))
  | string hquote _ _ | unfinished hquote _ =>
      exact .parts (.inr (.inr hquote)) (.inr (.inr hquote))
  | plain _ _ _ h => exact .same h

theorem at?_of_note {note : List Char} (hnote : '\n' ∉ note) (cs : List Char) :
    at? '#' (note ++ '\n' :: cs) = some ⟨.comment, '#' :: note, '\n' :: cs⟩ := by
  have hpiece : at? '#' (note ++ '\n' :: cs) = some (Piece.run .comment (· ≠ '\n') '#' _) := rfl
  rw [hpiece, Piece.run, Scan.takeWhile_line hnote, Scan.dropWhile_line hnote]

theorem at?_of_lastNote {note : List Char} (hnote : '\n' ∉ note) :
    at? '#' note = some ⟨.comment, '#' :: note, []⟩ := by
  have hall : ∀ c ∈ note, decide (c ≠ '\n') = true :=
    fun c hc ↦ decide_eq_true (ne_of_mem_of_not_mem hc hnote)
  have hpiece : at? '#' note = some (Piece.run .comment (· ≠ '\n') '#' note) := rfl
  rw [hpiece, Piece.run, List.takeWhile_eq_self_iff.mpr hall, List.dropWhile_eq_nil_iff.mpr hall]

theorem Same.mono {Q R : List Char → List Char → Prop} {p q : Piece} (h : p.Same Q q)
    (hQ : Q p.rest q.rest → R p.rest q.rest) : p.Same R q :=
  ⟨h.shape, h.lexeme, hQ h.rest⟩

/-- The text goes on with the same piece, and behind a line break a line starts. -/
theorem at?_rel (h : Reindented f false (c :: cs) (c :: ds)) :
    Option.Rel (fun p q ↦ p.Same (Reindented f (p.shape = .lineBreak)) q)
      (at? c cs) (at? c ds) := by
  cases h with
  | lineBreak h => exact .some ⟨rfl, rfl, h⟩
  | comment hnote h =>
      rw [at?_of_note hnote, at?_of_note hnote]
      exact .some ⟨rfl, rfl, .lineBreak h⟩
  | lastComment hnote =>
      rw [at?_of_lastNote hnote]
      exact .some ⟨rfl, rfl, .done⟩
  | string hquote hbody h =>
      rw [at?_of_decodes hquote hbody, at?_of_decodes hquote hbody]
      exact .some ⟨rfl, rfl, h⟩
  | unfinished hquote hopen =>
      rw [at?_of_open hquote hopen]
      exact .some ⟨rfl, rfl, .done⟩
  | plain hbreak hnote hquote h =>
      have hpiece : Option.Rel (Same (Reindented f false)) (at? c cs) (at? c ds) := by
        by_cases hblank : isBlank c
        · rw [at?, if_pos hblank, at?, if_pos hblank]
          refine .some (run_abreast (fun _ _ ↦ abreast) ?_ .blank c h)
          rintro c (rfl | rfl | hquote)
          · rfl
          · rfl
          · exact Bool.eq_false_iff.mpr (leads_of_isQuote hquote).1
        · refine at?_abreast (fun _ _ ↦ abreast) ?_ ⟨hblank, hbreak, hnote⟩ hquote h
          rintro c (rfl | rfl | hquote)
          · decide
          · decide
          · exact parts_of_isQuote hquote
      have hshape : ∀ p, at? c cs = some p → decide (p.shape = .lineBreak) = false :=
        fun p hp ↦ decide_eq_false (shape_ne_lineBreak hbreak hp)
      generalize at? c cs = x at hpiece hshape ⊢
      generalize at? c ds = y at hpiece ⊢
      cases hpiece with
      | none => exact .none
      | some hsame =>
          refine .some ⟨hsame.shape, hsame.lexeme, ?_⟩
          rw [hshape _ rfl]
          exact hsame.rest

end Reindented

namespace Levels

/-- The levels with other widths. -/
def map (f : Nat → Nat) (l : Levels) : Levels :=
  ⟨l.widths.map f⟩

variable {f : Nat → Nat} (hf : StrictMono f) (hzero : f 0 = 0)

include hzero in
theorem innermost_map (l : Levels) : (l.map f).innermost = f l.innermost := by
  obtain ⟨_ | ⟨w, ws⟩⟩ := l
  · exact hzero.symm
  · rfl

include hf hzero in
/-- Widths in the same order open and close the same levels. -/
theorem settle_map (l : Levels) (w : Nat) :
    (l.map f).settle (f w) = ((l.settle w).1, (l.settle w).2.map f) := by
  by_cases hw : l.innermost < w
  · have hw' : (l.map f).innermost < f w := by
      rw [innermost_map hzero]
      exact hf hw
    rw [settle_of_lt hw, settle_of_lt hw']
    rfl
  · have hw' : f w ≤ (l.map f).innermost := by
      rw [innermost_map hzero]
      exact hf.monotone (Nat.not_lt.mp hw)
    have hlt : (fun v ↦ decide (f w < v)) ∘ f = fun v ↦ decide (w < v) :=
      funext fun v ↦ decide_eq_decide.mpr hf.lt_iff_lt
    rw [settle_of_le (Nat.not_lt.mp hw), settle_of_le hw']
    simp only [map, List.takeWhile_map, List.dropWhile_map, List.map_map, hlt]
    rfl

theorem close_map (f : Nat → Nat) (l : Levels) : (l.map f).close = l.close :=
  List.map_map

end Levels

/-- The cause with another width. -/
def Cause.reindent (f : Nat → Nat) : Cause → Cause
  | .inconsistentDedent w => .inconsistentDedent (f w)
  | cause => cause

theorem Piece.Same.token?_at {R : List Char → List Char → Prop} {x y : Piece} (h : x.Same R y)
    (mode : Mode) (p q : Position) : y.token? mode q =
      (x.token? mode p).map (Option.map (Token.mapPosition fun _ ↦ q)) := by
  rw [← h.token?_eq, ← token?_mapPosition]

/-- The same kind, text and value. -/
abbrev Token.Agree (t u : Token) : Prop :=
  t.erase = u.erase

/-- The same cause but for the width. -/
def Fault.Reindents (f : Nat → Nat) (e e' : Fault) : Prop :=
  e'.cause = e.cause.reindent f

namespace Scan

variable {mode : Mode} {f : Nat → Nat} {s t : Scan}

/-- What is left of the one text is left of the other, with other blanks, and the open levels are
those that the other widths open. -/
structure Reindents (f : Nat → Nat) (s t : Scan) : Prop where
  rest : Reindented f s.lineStart s.reader.rest t.reader.rest
  levels : t.levels = s.levels.map f
  lineStart : t.lineStart = s.lineStart

theorem forall₂_layout (ks : List Kind) (p q : Position) :
    List.Forall₂ Token.Agree (ks.map (Token.layout · p)) (ks.map (Token.layout · q)) := by
  rw [List.forall₂_map_left_iff, List.forall₂_map_right_iff, List.forall₂_same]
  exact fun _ _ ↦ rfl

theorem finish_agree (h : Reindents f s t) : List.Forall₂ Token.Agree s.finish t.finish := by
  rw [finish, finish, h.levels, Levels.close_map]
  exact forall₂_layout _ _ _

theorem ragged_map (hf : StrictMono f) (hzero : f 0 = 0) (l : Levels) (w : Nat) :
    ((l.map f).settle (f w)).2.innermost ≠ f w ↔ (l.settle w).2.innermost ≠ w := by
  rw [Levels.settle_map hf hzero, Levels.innermost_map hzero, hf.injective.ne_iff]

/-- A line with tokens settles the levels in the same way, or is refused with both widths. -/
theorem alike_row (hf : StrictMono f) (hzero : f 0 = 0) {blanks blanks' cs ds : List Char}
    {c : Char} (hblanks : ∀ b ∈ blanks, isBlank b) (hblanks' : ∀ b ∈ blanks', isBlank b)
    (hwidth : indentWidth blanks' = f (indentWidth blanks)) (hlead : Leads c)
    (h : Reindented f false (c :: cs) (c :: ds)) (p q : Position) (l : Levels) :
    Alike mode Token.Agree (Fault.Reindents f) (Reindents f)
      ⟨⟨blanks ++ c :: cs, p⟩, l, true⟩ ⟨⟨blanks' ++ c :: ds, q⟩, l.map f, true⟩ := by
  have hragged := ragged_map hf hzero l (indentWidth blanks)
  have hsettle := Levels.settle_map hf hzero l (indentWidth blanks)
  rw [← hwidth] at hragged hsettle
  by_cases hstrict : mode = .strict ∧
      (l.settle (indentWidth blanks)).2.innermost ≠ indentWidth blanks
  · obtain ⟨hmode, hne⟩ := hstrict
    have hcause := congrArg Cause.inconsistentDedent hwidth
    exact .fails (.ragged rfl hblanks hlead hmode hne)
      (.ragged rfl hblanks' hlead hmode (hragged.mpr hne)) hcause
  · have hok (hmode : mode = .strict) :
        (l.settle (indentWidth blanks)).2.innermost = indentWidth blanks :=
      Decidable.not_not.mp fun hne ↦ hstrict ⟨hmode, hne⟩
    have hok' (hmode : mode = .strict) :
        ((l.map f).settle (indentWidth blanks')).2.innermost = indentWidth blanks' :=
      Decidable.not_not.mp fun hne ↦ hragged.mp hne (hok hmode)
    refine .steps (.settle rfl hblanks hlead hok) (.settle rfl hblanks' hlead hok') ?_
      ⟨h, congrArg Prod.snd hsettle, rfl⟩
    rw [hsettle]
    exact forall₂_layout _ _ _

/-- In a line both texts go on with the same piece, which is the same token in both. -/
theorem alike_piece {c : Char} {cs ds : List Char} (h : Reindented f false (c :: cs) (c :: ds))
    (p q : Position) (l : Levels) :
    Alike mode Token.Agree (Fault.Reindents f) (Reindents f)
      ⟨⟨c :: cs, p⟩, l, false⟩ ⟨⟨c :: ds, q⟩, l.map f, false⟩ := by
  have hpiece := h.at?_rel
  cases hcs : at? c cs with
  | none =>
      cases hds : at? c ds with
      | none => exact .fails (.foreign rfl hcs) (.foreign rfl hds) rfl
      | some _ =>
          rw [hcs, hds] at hpiece
          cases hpiece
  | some x =>
      cases hds : at? c ds with
      | none =>
          rw [hcs, hds] at hpiece
          cases hpiece
      | some y =>
          rw [hcs, hds] at hpiece
          obtain ⟨hsame⟩ := hpiece
          have htoken' : y.token? mode q = _ := hsame.token?_at mode p q
          cases htoken : x.token? mode p with
          | error cause =>
              rw [htoken] at htoken'
              obtain ⟨rfl, -⟩ := (token?_eq_error_iff hcs).mp htoken
              exact .fails (.piece rfl hcs htoken) (.piece rfl hds htoken') rfl
          | ok token =>
              rw [htoken] at htoken'
              refine .steps (.piece rfl hcs htoken) (.piece rfl hds htoken') ?_
                ⟨hsame.rest, rfl, by rw [hsame.shape]⟩
              cases token with
              | none => exact .nil
              | some t => exact .cons rfl .nil

theorem Reindents.alike (hf : StrictMono f) (hzero : f 0 = 0) (h : Reindents f s t) :
    Alike mode Token.Agree (Fault.Reindents f) (Reindents f) s t := by
  obtain ⟨⟨cs, p⟩, l, lineStart⟩ := s
  obtain ⟨⟨ds, q⟩, l', lineStart'⟩ := t
  have hfinish := finish_agree h
  have hrest : Reindented f lineStart cs ds := h.rest
  obtain rfl : l' = l.map f := h.levels
  obtain rfl : lineStart' = lineStart := h.lineStart
  cases lineStart' with
  | true =>
      cases hrest with
      | idle hidle hnext =>
          exact .steps (.drop rfl hidle) (.drop rfl hidle) .nil ⟨hnext, rfl, rfl⟩
      | lastIdle hidle =>
          by_cases hnil : cs = []
          · exact .ends hnil hnil hfinish
          · have hnone : Idle [] := ⟨[], [], rfl, List.forall_mem_nil _, .inl rfl⟩
            exact .steps (.dropLast hnil hidle) (.dropLast hnil hidle) .nil
              ⟨.lastIdle hnone, rfl, rfl⟩
      | row hblanks hblanks' hwidth hlead hline =>
          exact alike_row hf hzero hblanks hblanks' hwidth hlead hline p q l
  | false =>
      cases cs with
      | nil =>
          cases hrest with
          | done => exact .ends rfl rfl hfinish
      | cons c cs =>
          obtain ⟨ds, rfl⟩ := hrest.exists_cons
          exact alike_piece hrest p q l

end Scan

/-- Only the order of the widths matters: where the lines of a source have other widths in the same
order, it has the same tokens, or the same fault. -/
theorem scan_reindented {f : Nat → Nat} (hf : StrictMono f) (hzero : f 0 = 0)
    {source source' : String} (h : Reindented f true source.toList source'.toList) (mode : Mode) :
    Matching Token.Agree (Fault.Reindents f) (scan mode source) (scan mode source') := by
  have hstart : Scan.Reindents f (.start source) (.start source') := ⟨h, rfl, rfl⟩
  exact Scan.run_matching (fun _ _ h ↦ h.alike hf hzero) hstart .nil

/-- A tab for each blank. The last line goes back to a width at which no level is open. -/
theorem scan_reindented_tabs :
    let f (w : Nat) : Nat := 4 * w
    let source := "a\n  b\n c"
    let source' := "a\n\t\tb\n\tc"
    StrictMono f ∧ f 0 = 0 ∧ Reindented f true source.toList source'.toList ∧
      scan .strict source = .error ⟨.inconsistentDedent 1, ⟨3, 1⟩⟩ ∧
      Matching Token.Agree (Fault.Reindents f) (scan .strict source) (scan .strict source') := by
  intro f source source'
  have hf : StrictMono f := fun v w h ↦ Nat.mul_lt_mul_of_pos_left h (by decide)
  have hfirst : source.toList =
      [] ++ 'a' :: '\n' :: ([' ', ' '] ++ 'b' :: '\n' :: ([' '] ++ 'c' :: [])) := by
    decide +kernel
  have hsecond : source'.toList =
      [] ++ 'a' :: '\n' :: (['\t', '\t'] ++ 'b' :: '\n' :: (['\t'] ++ 'c' :: [])) := by
    decide +kernel
  have hrow {blanks blanks' cs ds : List Char} {c : Char}
      (hc : (¬ isBlank c ∧ c ≠ '\n' ∧ c ≠ '#') ∧ ¬ isQuote c)
      (hblanks : (blanks ++ blanks').all isBlank = true)
      (hwidth : indentWidth blanks' = f (indentWidth blanks)) (h : Reindented f false cs ds) :
      Reindented f true (blanks ++ c :: cs) (blanks' ++ c :: ds) := by
    obtain ⟨hlead, hquote⟩ := hc
    obtain ⟨hblanks, hblanks'⟩ := List.forall_mem_append.mp (List.all_eq_true.mp hblanks)
    exact .row hblanks hblanks' hwidth hlead (.plain hlead.2.1 hlead.2.2 hquote h)
  have h : Reindented f true source.toList source'.toList := by
    rw [hfirst, hsecond]
    refine hrow (by decide) (by decide) rfl (.lineBreak ?_)
    refine hrow (by decide) (by decide) rfl (.lineBreak ?_)
    exact hrow (by decide) (by decide) rfl .done
  exact ⟨hf, rfl, h, by decide +kernel, scan_reindented hf rfl h .strict⟩

end Offside
