import Mathlib.Data.List.TakeWhile
import Offside.Proofs.Grammar.Reading
import Offside.Scan

/-!
# What a scan does

One step of a scan either drops a line that holds no tokens, or settles the levels in front of
one that does, or takes a piece of the line. A scan succeeds when its steps lead to the end of the
source, and fails when they lead to a step that fails.
-/

namespace Offside

/-- A line without tokens: blanks, and perhaps a comment. -/
def Piece.Idle (line : List Char) : Prop :=
  ∃ blanks note, line = blanks ++ note ∧ (∀ b ∈ blanks, isBlank b) ∧
    (note = [] ∨ ∃ comment, note = '#' :: comment ∧ '\n' ∉ comment)

theorem Piece.Idle.newline_notMem {line : List Char} (h : Idle line) : '\n' ∉ line := by
  obtain ⟨blanks, note, rfl, hblanks, hnote⟩ := h
  intro hmem
  rcases List.mem_append.mp hmem with hmem | hmem
  · exact absurd (hblanks _ hmem) (by decide)
  · rcases hnote with rfl | ⟨comment, rfl, hcomment⟩
    · cases hmem
    · exact hcomment ((List.mem_cons.mp hmem).resolve_left (by decide))

/-- A character that can be the first one of a token. -/
def Piece.Leads (c : Char) : Prop :=
  ¬ isBlank c ∧ c ≠ '\n' ∧ c ≠ '#'

namespace Piece

variable {mode : Mode} {position : Position} {p : Piece} {token : Option Token}

/-- Blanks and comments are no tokens, and the line break is the only one of the layout. -/
theorem token?_cases (h : p.token? mode position = .ok token) :
    (p.shape = .blank ∨ p.shape = .comment) ∧ token = none ∨
      p.shape = .lineBreak ∧ (∃ t, token = some t ∧ t.kind = .newline) ∨
      p.shape ≠ .lineBreak ∧ ∃ t, token = some t ∧ t.kind.IsInk := by
  unfold token? at h
  cases hshape : p.shape with
  | blank =>
      simp only [hshape] at h
      cases h
      exact .inl ⟨.inl rfl, rfl⟩
  | comment =>
      simp only [hshape] at h
      cases h
      exact .inl ⟨.inr rfl, rfl⟩
  | lineBreak =>
      simp only [hshape] at h
      cases h
      exact .inr (.inl ⟨rfl, _, rfl, rfl⟩)
  | integer | decimal =>
      simp only [hshape] at h
      split at h
      · cases h
        exact .inr (.inr ⟨nofun, _, rfl, trivial⟩)
      · cases h
  | word =>
      simp only [hshape] at h
      split at h
      · cases h
        exact .inr (.inr ⟨nofun, _, rfl, trivial⟩)
      · cases h
        exact .inr (.inr ⟨nofun, _, rfl, trivial⟩)
  | string text closed =>
      simp only [hshape] at h
      split at h
      · cases h
      · cases h
        exact .inr (.inr ⟨nofun, _, rfl, trivial⟩)
  | mark m =>
      simp only [hshape] at h
      cases h
      exact .inr (.inr ⟨nofun, _, rfl, trivial⟩)

end Piece

namespace Scan

/-- The steps from one state to the next, with the tokens that they add. -/
inductive Step (mode : Mode) : Scan → List Token → Scan → Prop
  | drop {r : Reader} {l : Levels} {line rest : List Char}
      (hrest : r.rest = line ++ '\n' :: rest) (hidle : Piece.Idle line) :
      Step mode ⟨r, l, true⟩ [] ⟨r.past (line ++ ['\n']) rest, l, true⟩
  | dropLast {r : Reader} {l : Levels} (hrest : r.rest ≠ []) (hidle : Piece.Idle r.rest) :
      Step mode ⟨r, l, true⟩ [] ⟨r.past r.rest [], l, true⟩
  | settle {r : Reader} {l : Levels} {blanks rest : List Char} {c : Char}
      (hrest : r.rest = blanks ++ c :: rest) (hblanks : ∀ b ∈ blanks, Piece.isBlank b)
      (hlead : Piece.Leads c)
      (hmode : mode = .strict →
        (l.settle (indentWidth blanks)).2.innermost = indentWidth blanks) :
      Step mode ⟨r, l, true⟩
        ((l.settle (indentWidth blanks)).1.map (Token.layout · r.position.margin))
        ⟨r.past blanks (c :: rest), (l.settle (indentWidth blanks)).2, false⟩
  | piece {r : Reader} {l : Levels} {c : Char} {cs : List Char} {p : Piece}
      {token : Option Token} (hrest : r.rest = c :: cs) (hpiece : Piece.at? c cs = some p)
      (htoken : p.token? mode r.position = .ok token) :
      Step mode ⟨r, l, false⟩ token.toList
        ⟨r.past p.lexeme p.rest, l, p.shape = .lineBreak⟩

/-- Any number of steps. -/
inductive Reaches (mode : Mode) : Scan → List Token → Scan → Prop
  | refl (s : Scan) : Reaches mode s [] s
  | step {s t u : Scan} {xs ys : List Token} (hstep : Step mode s xs t)
      (h : Reaches mode t ys u) : Reaches mode s (xs ++ ys) u

/-- The scan cannot go on, because of a character that begins no piece, a piece that is no token
or, in strict mode, a line whose width is that of no level which it leaves open. -/
inductive Fails (mode : Mode) : Scan → Fault → Prop
  | foreign {r : Reader} {l : Levels} {c : Char} {cs : List Char} (hrest : r.rest = c :: cs)
      (hpiece : Piece.at? c cs = none) :
      Fails mode ⟨r, l, false⟩ ⟨.unrecognisedCharacter c, r.position⟩
  | piece {r : Reader} {l : Levels} {c : Char} {cs : List Char} {p : Piece} {cause : Cause}
      (hrest : r.rest = c :: cs) (hpiece : Piece.at? c cs = some p)
      (htoken : p.token? mode r.position = .error cause) :
      Fails mode ⟨r, l, false⟩ ⟨cause, r.position⟩
  | ragged {r : Reader} {l : Levels} {blanks rest : List Char} {c : Char}
      (hrest : r.rest = blanks ++ c :: rest) (hblanks : ∀ b ∈ blanks, Piece.isBlank b)
      (hlead : Piece.Leads c) (hmode : mode = .strict)
      (hwidth : (l.settle (indentWidth blanks)).2.innermost ≠ indentWidth blanks) :
      Fails mode ⟨r, l, true⟩ ⟨.inconsistentDedent (indentWidth blanks), r.position.margin⟩

variable {mode : Mode} {s t u : Scan}

theorem Fails.rest_ne_nil {e : Fault} (h : Fails mode s e) : s.reader.rest ≠ [] := by
  cases h with
  | foreign hrest _ => simp [hrest]
  | piece hrest _ _ => simp [hrest]
  | ragged hrest _ _ _ _ => simp [hrest]

theorem Step.rest_ne_nil {xs : List Token} (h : Step mode s xs t) : s.reader.rest ≠ [] := by
  cases h with
  | drop hrest _ => simp [hrest]
  | dropLast hrest _ => exact hrest
  | settle hrest _ _ _ => simp [hrest]
  | piece hrest _ _ => simp [hrest]

theorem Reaches.single {xs : List Token} (h : Step mode s xs t) : Reaches mode s xs t := by
  rw [← List.append_nil xs]
  exact .step h (.refl t)

theorem Reaches.trans {u : Scan} {ys : List Token} (h : Reaches mode s xs t)
    (h' : Reaches mode t ys u) : Reaches mode s (xs ++ ys) u := by
  induction h with
  | refl _ => exact h'
  | step hstep _ ih =>
      rw [List.append_assoc]
      exact .step hstep (ih h')

/-- What every step preserves holds at the end if it holds at the start. -/
theorem Reaches.invariant {I : List Token → Scan → Prop}
    (hstep : ∀ ⦃ws xs s t⦄, Step mode s xs t → I ws s → I (ws ++ xs) t) {ws xs : List Token}
    (h : Reaches mode s xs t) (hs : I ws s) : I (ws ++ xs) t := by
  induction h generalizing ws with
  | refl _ => rwa [List.append_nil]
  | step hfirst _ ih =>
      rw [← List.append_assoc]
      exact ih (hstep hfirst hs)

theorem kind_of_mem_settle {l : Levels} {w : Nat} {k : Kind} (h : k ∈ (l.settle w).1) :
    k = .indent ∨ k = .dedent := by
  by_cases hw : l.innermost < w
  · rw [Levels.settle_of_lt hw] at h
    exact .inl (List.mem_singleton.mp h)
  · rw [Levels.settle_of_le (Nat.not_lt.mp hw)] at h
    obtain ⟨-, -, rfl⟩ := List.mem_map.mp h
    exact .inr rfl

/-- The end mark is no token of a step. -/
theorem Step.ne_eof {xs : List Token} (h : Step mode s xs t) : ∀ x ∈ xs, x.kind ≠ .eof := by
  intro x hx
  cases h with
  | drop _ _ | dropLast _ _ => exact absurd hx List.not_mem_nil
  | settle _ _ _ _ =>
      obtain ⟨k, hk, rfl⟩ := List.mem_map.mp hx
      rcases kind_of_mem_settle hk with rfl | rfl <;> exact nofun
  | piece _ _ htoken =>
      rcases Piece.token?_cases htoken with ⟨-, rfl⟩ | ⟨-, y, rfl, hy⟩ | ⟨-, y, rfl, hy⟩
      · exact absurd hx List.not_mem_nil
      · rw [List.mem_singleton.mp hx, hy]
        exact nofun
      · rw [List.mem_singleton.mp hx]
        exact hy.ne_eof

theorem Reaches.ne_eof {xs : List Token} (h : Reaches mode s xs t) :
    ∀ x ∈ xs, x.kind ≠ .eof := by
  induction h with
  | refl _ => exact fun x hx ↦ absurd hx List.not_mem_nil
  | step hstep _ ih =>
      intro x hx
      rcases List.mem_append.mp hx with hx | hx
      · exact hstep.ne_eof x hx
      · exact ih x hx

section

variable {blanks line rest : List Char} {c : Char}

theorem takeWhile_isBlank (hblanks : ∀ b ∈ blanks, Piece.isBlank b) (hc : ¬ Piece.isBlank c) :
    (blanks ++ c :: rest).takeWhile Piece.isBlank = blanks := by
  rw [List.takeWhile_append_of_pos hblanks, List.takeWhile_cons_of_neg hc, List.append_nil]

theorem dropWhile_isBlank (hblanks : ∀ b ∈ blanks, Piece.isBlank b) (hc : ¬ Piece.isBlank c) :
    (blanks ++ c :: rest).dropWhile Piece.isBlank = c :: rest := by
  rw [List.dropWhile_append_of_pos hblanks, List.dropWhile_cons_of_neg hc]

theorem takeWhile_line (hline : '\n' ∉ line) (rest : List Char) :
    (line ++ '\n' :: rest).takeWhile (· ≠ '\n') = line := by
  have hall : ∀ d ∈ line, decide (d ≠ '\n') = true :=
    fun d hd ↦ decide_eq_true (ne_of_mem_of_not_mem hd hline)
  rw [List.takeWhile_append_of_pos hall, List.takeWhile_cons_of_neg (by simp), List.append_nil]

theorem dropWhile_line (hline : '\n' ∉ line) (rest : List Char) :
    (line ++ '\n' :: rest).dropWhile (· ≠ '\n') = '\n' :: rest := by
  have hall : ∀ d ∈ line, decide (d ≠ '\n') = true :=
    fun d hd ↦ decide_eq_true (ne_of_mem_of_not_mem hd hline)
  rw [List.dropWhile_append_of_pos hall, List.dropWhile_cons_of_neg (by simp)]

/-- What a text can be at the start of a line. -/
theorem start_cases (cs : List Char) :
    Piece.Idle cs ∨ (∃ line rest, cs = line ++ '\n' :: rest ∧ Piece.Idle line) ∨
      ∃ blanks c rest, cs = blanks ++ c :: rest ∧ (∀ b ∈ blanks, Piece.isBlank b) ∧
        Piece.Leads c := by
  have happ := List.takeWhile_append_dropWhile (p := Piece.isBlank) (l := cs)
  have hblanks : ∀ b ∈ cs.takeWhile Piece.isBlank, Piece.isBlank b :=
    fun _ hb ↦ List.mem_takeWhile_imp hb
  generalize cs.takeWhile Piece.isBlank = blanks at happ hblanks
  cases hafter : cs.dropWhile Piece.isBlank with
  | nil =>
      rw [hafter] at happ
      exact .inl ⟨blanks, [], happ.symm, hblanks, .inl rfl⟩
  | cons c rest =>
      have hc : ¬ Piece.isBlank c := by
        have hhead := List.head?_dropWhile_not Piece.isBlank cs
        rw [hafter] at hhead
        simpa using hhead
      rw [hafter] at happ
      by_cases hbreak : c = '\n'
      · subst hbreak
        exact .inr (.inl ⟨blanks, rest, happ.symm, blanks, [], (List.append_nil _).symm, hblanks,
          .inl rfl⟩)
      by_cases hnote : c = '#'
      · subst hnote
        by_cases hin : '\n' ∈ rest
        · obtain ⟨comment, rest, rfl, hcomment⟩ := List.eq_append_cons_of_mem hin
          refine .inr (.inl ⟨blanks ++ '#' :: comment, rest, ?_, blanks, '#' :: comment, rfl,
            hblanks, .inr ⟨comment, rfl, hcomment⟩⟩)
          rw [← happ, List.append_assoc, List.cons_append]
        · exact .inl ⟨blanks, '#' :: rest, happ.symm, hblanks, .inr ⟨rest, rfl, hin⟩⟩
      · exact .inr (.inr ⟨blanks, c, rest, happ.symm, hblanks, hc, hbreak, hnote⟩)

theorem startLine_of_idle (mode : Mode) (hidle : Piece.Idle s.reader.rest) :
    s.startLine mode = .ok ([], s.dropLine s.reader.rest []) := by
  obtain ⟨blanks, note, happ, hblanks, hnote⟩ := hidle
  rcases hnote with rfl | ⟨comment, rfl, hcomment⟩
  · rw [List.append_nil] at happ
    rw [← happ] at hblanks
    rw [startLine, List.takeWhile_eq_self_iff.mpr hblanks, List.dropWhile_eq_nil_iff.mpr hblanks]
  · have htake : comment.takeWhile (· ≠ '\n') = comment :=
      List.takeWhile_eq_self_iff.mpr fun d hd ↦ decide_eq_true (ne_of_mem_of_not_mem hd hcomment)
    have hdrop : comment.dropWhile (· ≠ '\n') = [] :=
      List.dropWhile_eq_nil_iff.mpr fun d hd ↦ decide_eq_true (ne_of_mem_of_not_mem hd hcomment)
    rw [startLine, happ, takeWhile_isBlank hblanks (by decide),
      dropWhile_isBlank hblanks (by decide)]
    simp only [htake, hdrop]
    rfl

theorem startLine_of_line (mode : Mode) (hrest : s.reader.rest = line ++ '\n' :: rest)
    (hidle : Piece.Idle line) :
    s.startLine mode = .ok ([], s.dropLine (line ++ ['\n']) rest) := by
  obtain ⟨blanks, note, rfl, hblanks, hnote⟩ := hidle
  rcases hnote with rfl | ⟨comment, rfl, hcomment⟩
  · rw [List.append_nil] at hrest ⊢
    rw [startLine, hrest, takeWhile_isBlank hblanks (by decide),
      dropWhile_isBlank hblanks (by decide)]
    rfl
  · rw [List.append_assoc, List.cons_append] at hrest
    rw [startLine, hrest, takeWhile_isBlank hblanks (by decide),
      dropWhile_isBlank hblanks (by decide)]
    simp only [takeWhile_line hcomment, dropWhile_line hcomment]
    rfl

theorem startLine_of_leads (mode : Mode) (hrest : s.reader.rest = blanks ++ c :: rest)
    (hblanks : ∀ b ∈ blanks, Piece.isBlank b) (hlead : Piece.Leads c) :
    s.startLine mode = s.settle mode blanks (c :: rest) := by
  obtain ⟨hblank, hbreak, hnote⟩ := hlead
  rw [startLine, hrest, takeWhile_isBlank hblanks hblank, dropWhile_isBlank hblanks hblank]
  simp only [hbreak, hnote, if_false]

end

/-- Strict scanning wants one of the levels that are left open to be as wide as the line. -/
theorem settle_eq (mode : Mode) (s : Scan) (blanks rest : List Char) :
    s.settle mode blanks rest =
      if mode = .strict ∧
          (s.levels.settle (indentWidth blanks)).2.innermost ≠ indentWidth blanks then
        .error ⟨.inconsistentDedent (indentWidth blanks), s.reader.position.margin⟩
      else .ok ((s.levels.settle (indentWidth blanks)).1.map
          (Token.layout · s.reader.position.margin),
        ⟨s.reader.past blanks rest, (s.levels.settle (indentWidth blanks)).2, false⟩) := by
  simp [settle, Mode.isStrict]

theorem Step.step_eq {xs : List Token} {c : Char} {cs : List Char}
    (hrest : s.reader.rest = c :: cs) (h : Step mode s xs t) : s.step mode c cs = .ok (xs, t) := by
  cases h with
  | drop hline hidle => exact startLine_of_line mode hline hidle
  | dropLast _ hidle => exact startLine_of_idle mode hidle
  | settle hline hblanks hlead hmode =>
      refine (startLine_of_leads mode hline hblanks hlead).trans ?_
      rw [settle_eq, if_neg]
      exact fun hstrict ↦ hstrict.2 (hmode hstrict.1)
  | piece hline hpiece htoken =>
      obtain ⟨rfl, rfl⟩ := List.cons.inj (hline.symm.trans hrest)
      rw [step, if_neg (by simp), readPiece]
      simp only [hpiece, htoken]

theorem Step.of_step_eq {xs : List Token} {c : Char} {cs : List Char}
    (hrest : s.reader.rest = c :: cs) (h : s.step mode c cs = .ok (xs, t)) : Step mode s xs t := by
  obtain ⟨r, l, _ | _⟩ := s
  · rw [step, if_neg (by simp), readPiece] at h
    split at h
    · cases h
    · next hpiece =>
        split at h
        · cases h
        · next htoken =>
            cases h
            exact .piece hrest hpiece htoken
  · rw [step, if_pos rfl] at h
    rcases start_cases r.rest with hidle | ⟨line, rest, hline, hidle⟩ |
      ⟨blanks, d, rest, hline, hblanks, hlead⟩
    · rw [startLine_of_idle mode hidle] at h
      cases h
      exact .dropLast (by rw [hrest]; exact List.cons_ne_nil c cs) hidle
    · rw [startLine_of_line mode hline hidle] at h
      cases h
      exact .drop hline hidle
    · rw [startLine_of_leads mode hline hblanks hlead, settle_eq] at h
      split at h
      · cases h
      · next hstrict =>
          cases h
          exact .settle hline hblanks hlead fun hmode ↦
            Decidable.not_not.mp fun hne ↦ hstrict ⟨hmode, hne⟩

theorem Fails.step_eq {c : Char} {cs : List Char} {e : Fault} (hrest : s.reader.rest = c :: cs)
    (h : Fails mode s e) : s.step mode c cs = .error e := by
  cases h with
  | foreign hline hpiece =>
      obtain ⟨rfl, rfl⟩ := List.cons.inj (hline.symm.trans hrest)
      rw [step, if_neg (by simp), readPiece]
      simp only [hpiece]
  | piece hline hpiece htoken =>
      obtain ⟨rfl, rfl⟩ := List.cons.inj (hline.symm.trans hrest)
      rw [step, if_neg (by simp), readPiece]
      simp only [hpiece, htoken]
  | ragged hline hblanks hlead hmode hwidth =>
      refine (startLine_of_leads mode hline hblanks hlead).trans ?_
      rw [settle_eq, if_pos ⟨hmode, hwidth⟩]

theorem Fails.of_step_eq {c : Char} {cs : List Char} {e : Fault} (hrest : s.reader.rest = c :: cs)
    (h : s.step mode c cs = .error e) : Fails mode s e := by
  obtain ⟨r, l, _ | _⟩ := s
  · rw [step, if_neg (by simp), readPiece] at h
    split at h
    · next hpiece =>
        cases h
        exact .foreign hrest hpiece
    · next hpiece =>
        split at h
        · next htoken =>
            cases h
            exact .piece hrest hpiece htoken
        · cases h
  · rw [step, if_pos rfl] at h
    rcases start_cases r.rest with hidle | ⟨line, rest, hline, hidle⟩ |
      ⟨blanks, d, rest, hline, hblanks, hlead⟩
    · rw [startLine_of_idle mode hidle] at h
      cases h
    · rw [startLine_of_line mode hline hidle] at h
      cases h
    · rw [startLine_of_leads mode hline hblanks hlead, settle_eq] at h
      split at h
      · next hragged =>
          cases h
          exact .ragged hline hblanks hlead hragged.1 hragged.2
      · cases h

/-- A scan is at the end, or it can go on, or it fails. -/
theorem next_cases (mode : Mode) (s : Scan) :
    s.reader.rest = [] ∨ (∃ xs t, Step mode s xs t) ∨ ∃ e, Fails mode s e := by
  cases hrest : s.reader.rest with
  | nil => exact .inl rfl
  | cons c cs =>
      cases hstep : s.step mode c cs with
      | ok next => exact .inr (.inl ⟨_, _, .of_step_eq hrest hstep⟩)
      | error e => exact .inr (.inr ⟨e, .of_step_eq hrest hstep⟩)

/-- A scan succeeds when its steps lead to the end of the source. -/
theorem run_eq_ok_iff {found ts : List Token} :
    s.run mode found = .ok ts ↔
      ∃ xs t, Reaches mode s xs t ∧ t.reader.rest = [] ∧ ts = found.reverse ++ xs ++ t.finish := by
  fun_induction run mode s found with
  | case1 s found hrest =>
      constructor
      · rintro ⟨⟩
        exact ⟨[], s, .refl s, hrest, by rw [List.append_nil]⟩
      · rintro ⟨xs, t, hreach, -, rfl⟩
        cases hreach with
        | refl _ => rw [List.append_nil]
        | step hstep _ => exact absurd hrest hstep.rest_ne_nil
  | case2 s found c cs hrest fault hstep =>
      constructor
      · rintro ⟨⟩
      · rintro ⟨xs, t, hreach, hend, -⟩
        cases hreach with
        | refl _ => simp [hrest] at hend
        | step hfirst _ =>
            rw [hfirst.step_eq hrest] at hstep
            cases hstep
  | case3 s found c cs hrest tokens next hstep _ ih =>
      rw [ih]
      constructor
      · rintro ⟨xs, t, hreach, hend, rfl⟩
        refine ⟨tokens ++ xs, t, .step (.of_step_eq hrest hstep) hreach, hend, ?_⟩
        simp
      · rintro ⟨xs, t, hreach, hend, rfl⟩
        cases hreach with
        | refl _ => simp [hrest] at hend
        | step hfirst hreach =>
            rw [hfirst.step_eq hrest] at hstep
            cases hstep
            exact ⟨_, t, hreach, hend, by simp⟩

/-- A scan fails when its steps lead to one that fails. -/
theorem run_eq_error_iff {found : List Token} {f : Fault} :
    s.run mode found = .error f ↔
      ∃ xs t c cs, Reaches mode s xs t ∧ t.reader.rest = c :: cs ∧
        t.step mode c cs = .error f := by
  fun_induction run mode s found with
  | case1 s found hrest =>
      constructor
      · rintro ⟨⟩
      · rintro ⟨xs, t, c, cs, hreach, hne, -⟩
        cases hreach with
        | refl _ => simp [hrest] at hne
        | step hstep _ => exact absurd hrest hstep.rest_ne_nil
  | case2 s found c cs hrest fault hstep =>
      constructor
      · rintro ⟨⟩
        exact ⟨[], s, c, cs, .refl s, hrest, hstep⟩
      · rintro ⟨xs, t, d, ds, hreach, hne, herror⟩
        cases hreach with
        | refl _ =>
            obtain ⟨rfl, rfl⟩ := List.cons.inj (hrest.symm.trans hne)
            rw [hstep] at herror
            cases herror
            rfl
        | step hfirst _ =>
            rw [hfirst.step_eq hrest] at hstep
            cases hstep
  | case3 s found c cs hrest tokens next hstep _ ih =>
      rw [ih]
      constructor
      · rintro ⟨xs, t, d, ds, hreach, hne, herror⟩
        exact ⟨_, t, d, ds, .step (.of_step_eq hrest hstep) hreach, hne, herror⟩
      · rintro ⟨xs, t, d, ds, hreach, hne, herror⟩
        cases hreach with
        | refl _ =>
            obtain ⟨rfl, rfl⟩ := List.cons.inj (hrest.symm.trans hne)
            rw [hstep] at herror
            cases herror
        | step hfirst hreach =>
            rw [hfirst.step_eq hrest] at hstep
            cases hstep
            exact ⟨_, t, d, ds, hreach, hne, herror⟩

theorem run_of_step {xs found : List Token} {c : Char} {cs : List Char}
    (hrest : s.reader.rest = c :: cs) (h : s.step mode c cs = .ok (xs, t)) :
    s.run mode found = t.run mode (xs.reverse ++ found) := by
  rw [run.eq_def]
  split
  · next hnil => cases hnil.symm.trans hrest
  · next d ds hcons =>
      obtain ⟨rfl, rfl⟩ := List.cons.inj (hcons.symm.trans hrest)
      split
      · next hfault => cases hfault.symm.trans h
      · next hstep =>
          cases hstep.symm.trans h
          rfl

theorem run_of_step_error {found : List Token} {c : Char} {cs : List Char} {f : Fault}
    (hrest : s.reader.rest = c :: cs) (h : s.step mode c cs = .error f) :
    s.run mode found = .error f :=
  run_eq_error_iff.mpr ⟨[], s, c, cs, .refl s, hrest, h⟩

theorem Fails.run_eq {found : List Token} {e : Fault} (h : Fails mode s e) :
    s.run mode found = .error e := by
  obtain ⟨c, cs, hrest⟩ := List.exists_cons_of_ne_nil h.rest_ne_nil
  exact run_of_step_error hrest (h.step_eq hrest)

theorem exists_fails_of_run {found : List Token} {e : Fault} (h : s.run mode found = .error e) :
    ∃ xs t, Reaches mode s xs t ∧ Fails mode t e := by
  obtain ⟨xs, t, c, cs, hreach, hrest, hstep⟩ := run_eq_error_iff.mp h
  exact ⟨xs, t, hreach, .of_step_eq hrest hstep⟩

/-- The tokens that were found before stand in front of those that a scan finds. -/
theorem run_eq_map (mode : Mode) (s : Scan) (found : List Token) :
    s.run mode found = (s.run mode []).map (found.reverse ++ ·) := by
  cases h : s.run mode [] with
  | ok ts =>
      obtain ⟨xs, t, hreach, hend, rfl⟩ := run_eq_ok_iff.mp h
      exact run_eq_ok_iff.mpr ⟨xs, t, hreach, hend, by simp⟩
  | error f => exact run_eq_error_iff.mpr (run_eq_error_iff.mp h)

/-- A scan that makes some steps does behind them what is left to do. -/
theorem Reaches.run_eq {xs found : List Token} (h : Reaches mode s xs t) :
    s.run mode found = t.run mode (xs.reverse ++ found) := by
  induction h generalizing found with
  | refl _ => rfl
  | step hstep _ ih =>
      obtain ⟨c, cs, hrest⟩ := List.exists_cons_of_ne_nil hstep.rest_ne_nil
      rw [run_of_step hrest (hstep.step_eq hrest), ih, List.reverse_append, List.append_assoc]

end Scan

/-- The tokens of a source are those of its steps and those at its end. -/
theorem scan_eq_ok_iff {mode : Mode} {source : String} {ts : List Token} :
    scan mode source = .ok ts ↔
      ∃ xs t, Scan.Reaches mode (Scan.start source) xs t ∧ t.reader.rest = [] ∧
        ts = xs ++ t.finish := by
  rw [scan, Scan.run_eq_ok_iff]
  rfl

theorem scan_eq_error_iff {mode : Mode} {source : String} {f : Fault} :
    scan mode source = .error f ↔
      ∃ xs t c cs, Scan.Reaches mode (Scan.start source) xs t ∧ t.reader.rest = c :: cs ∧
        t.step mode c cs = .error f :=
  Scan.run_eq_error_iff

end Offside
