import Offside.Proofs.Indentation
import Offside.Proofs.Parse.Blame
import Offside.Proofs.Scan.Truncate
import Offside.Proofs.Strings

/-!
# Where a scan fails

A scan fails exactly where it comes to a character that nothing begins with or, in strict mode, to
a string that is not closed or a line that goes back to a width of which no level is open. What
stands in front of that place is a source that can be scanned.
-/

namespace Offside

namespace Piece

open Lexeme

/-- Nothing that a line is cut into begins with `c` when `cs` stands behind it. -/
structure Foreign (c : Char) (cs : List Char) : Prop where
  not_blank : ¬ isBlank c
  ne_newline : c ≠ '\n'
  ne_note : c ≠ '#'
  not_quote : ¬ isQuote c
  no_lexeme : ∀ (k : Lexeme.Class) (w : List Char), w <+: c :: cs → ¬ k.Has w

variable {mode : Mode} {position : Position} {c : Char} {cs : List Char} {p : Piece}

theorem ne_nil_of_has {k : Lexeme.Class} {w : List Char} (h : k.Has w) : w ≠ [] := by
  cases k with
  | word =>
      obtain ⟨c, cs, rfl, -⟩ := h
      exact List.cons_ne_nil c cs
  | number =>
      rcases h with h | ⟨whole, places, -, -, rfl⟩
      · exact h.1
      · simp
  | string =>
      obtain ⟨quote, body, text, -, -, rfl⟩ := h
      simp
  | mark =>
      obtain ⟨m, rfl⟩ := h
      obtain ⟨c, cs, hm, -⟩ := exists_leads_of_mark m
      simp [hm]

theorem mark?_of_spelling {m : Mark} (h : m.spelling.toList <+: c :: cs) :
    mark? c cs ≠ none := by
  obtain ⟨d, ds, hm, -⟩ := exists_leads_of_mark m
  rw [hm] at h
  obtain ⟨rfl, hds⟩ := List.cons_prefix_cons.mp h
  cases ds with
  | nil =>
      obtain ⟨hsingle, -⟩ := mark_single hm
      cases cs with
      | nil => simp [mark?, hsingle]
      | cons e cs => cases hpair : Mark.ofPair? d e <;> simp [mark?, hsingle, hpair]
  | cons d ds =>
      obtain ⟨rfl, hpair⟩ := mark_pair hm
      obtain ⟨cs, rfl⟩ := hds
      simp [mark?, hpair]

theorem at?_eq_none_iff : at? c cs = none ↔ Foreign c cs := by
  constructor
  · intro h
    unfold at? at h
    split_ifs at h with hblank hbreak hnote hdigit hquote hword
    refine ⟨hblank, hbreak, hnote, hquote, fun k w hw hk ↦ ?_⟩
    obtain ⟨d, ds, rfl⟩ := List.exists_cons_of_ne_nil (ne_nil_of_has hk)
    obtain rfl := (List.cons_prefix_cons.mp hw).1
    obtain rfl : k = .mark := by simpa [Class.of, hdigit, hquote, hword] using Class.eq_of hk
    obtain ⟨m, hm⟩ := hk
    exact mark?_of_spelling (hm ▸ hw) h
  · intro h
    refine Option.eq_none_iff_forall_ne_some.mpr fun p hp ↦ ?_
    have hfirst : [c] <+: c :: cs := ⟨cs, rfl⟩
    cases cut_of_at? hp with
    | blank hblank => exact h.not_blank hblank
    | lineBreak hbreak => exact h.ne_newline hbreak
    | comment hnote => exact h.ne_note hnote
    | numeral hdigit =>
        exact h.no_lexeme .number [c] hfirst (.inl ⟨List.cons_ne_nil c [], by simpa using hdigit⟩)
    | string hquote => exact h.not_quote hquote
    | word hword _ _ =>
        exact h.no_lexeme .word [c] hfirst ⟨c, [], rfl, hword, List.forall_mem_nil _⟩
    | mark hmark =>
        have happ := mark?_append hmark
        rcases mark?_cases hmark with ⟨m, rfl, hm, -⟩ | ⟨m, d, ds, rfl, hm⟩
        · exact h.no_lexeme .mark [c] hfirst ⟨m, hm.symm⟩
        · exact h.no_lexeme .mark [c, d] ⟨ds, happ⟩ ⟨m, hm.symm⟩

/-- An exclamation mark is only a part of the mark `!=`. -/
theorem foreign_exclamation_iff : Foreign '!' cs ↔ cs.head? ≠ some '=' := by
  have hspelling : Mark.notEquals.spelling.toList = ['!', '='] := rfl
  obtain ⟨hword, hdigit, hquote, -⟩ := mark_starts hspelling
  have hlead : Leads '!' := ⟨by decide, by decide, by decide⟩
  rw [← at?_eq_none_iff, at?_of_leads hlead, if_neg hdigit, if_neg hquote, if_neg hword]
  constructor
  · rintro hnone hhead
    obtain ⟨ds, rfl⟩ := List.head?_eq_some_iff.mp hhead
    cases hnone
  · intro hhead
    refine Option.eq_none_iff_forall_ne_some.mpr fun p hp ↦ ?_
    rcases mark?_cases hp with ⟨m, -, hm, -⟩ | ⟨m, d, ds, rfl, hm⟩
    · have hsingle := (mark_single hm).1
      cases hsingle
    · have happ := mark?_append hp
      obtain rfl : d :: ds = cs := (List.cons.inj happ).2
      have hpair := (mark_pair hm).2
      unfold Mark.ofPair? at hpair
      split at hpair <;> simp_all

/-- Only a string that is not closed is no token, and only in strict mode. -/
theorem token?_eq_error_iff {cause : Cause} (hpiece : at? c cs = some p) :
    p.token? mode position = .error cause ↔ cause = .unterminatedString ∧ mode = .strict ∧
      isQuote c ∧ ∀ body rest, ¬ Unescaped c cs body rest := by
  by_cases hquote : isQuote c
  · by_cases hclosed : ∃ body rest, Unescaped c cs body rest
    · obtain ⟨body, rest, h⟩ := hclosed
      obtain ⟨body', rest', hends⟩ := h.exists_endsAt
      have hcut := at?_of_decodes hquote hends.decodes rest'
      rw [← hends.split, hpiece] at hcut
      obtain rfl := Option.some.inj hcut
      constructor
      · exact nofun
      · exact fun hopen ↦ absurd h (hopen.2.2.2 body rest)
    · simp only [not_exists] at hclosed
      rw [at?_of_open hquote hclosed] at hpiece
      obtain rfl := Option.some.inj hpiece
      cases mode with
      | lenient => simp [token?, Mode.isStrict]
      | strict => simp [token?, Mode.isStrict, hquote, hclosed, eq_comm]
  · refine iff_of_false (fun h ↦ ?_) fun h ↦ hquote h.2.2.1
    cases cut_of_at? hpiece with
    | blank _ | lineBreak _ | comment _ => cases h
    | string hstring => exact hquote hstring
    | numeral hdigit =>
        obtain ⟨ds, hwhole, ⟨rest, hcut, -⟩ | ⟨places, rest, hcut, hplaces, -⟩⟩ :=
          numeral_cases hdigit cs
        · simp [hcut, token?, integer?_of_isWhole hwhole] at h
        · have hdecimal : IsDecimal (c :: ds ++ '.' :: places) (c :: ds) places :=
            ⟨hwhole, hplaces, rfl⟩
          obtain ⟨x, hvalue, -⟩ := double?_of_isDecimal hdecimal
          rw [hcut] at h
          simp only [token?, hvalue] at h
          cases h
    | word _ _ _ =>
        simp only [token?, run] at h
        split at h <;> cases h
    | mark hmark =>
        obtain ⟨m, hm⟩ := shape_of_mark? hmark
        simp [token?, hm] at h

end Piece

/-- Behind rows of a source, where a line starts or within one, the text goes on in a way that
cannot be scanned. -/
inductive Stuck (mode : Mode) (rows : List Row) : Bool → List Char → Cause → Prop
  | unrecognised {c : Char} {cs : List Char} (h : Piece.Foreign c cs) :
      Stuck mode rows false (c :: cs) (.unrecognisedCharacter c)
  | unterminated {quote : Char} {cs : List Char} (hmode : mode = .strict)
      (hquote : Piece.isQuote quote) (hopen : ∀ body rest, ¬ Lexeme.Unescaped quote cs body rest) :
      Stuck mode rows false (quote :: cs) .unterminatedString
  | ragged {blanks rest : List Char} {c : Char} (hmode : mode = .strict)
      (hblanks : ∀ b ∈ blanks, Piece.isBlank b) (hlead : Piece.Leads c)
      (hragged : Ragged rows (indentWidth blanks)) :
      Stuck mode rows true (blanks ++ c :: rest) (.inconsistentDedent (indentWidth blanks))

section

variable {mode : Mode} {rows : List Row} {c : Char} {cs : List Char} {cause : Cause}

theorem Stuck.ragged_of_start (h : Stuck mode rows true cs cause) :
    mode = .strict ∧ ∃ blanks c rest, cs = blanks ++ c :: rest ∧
      (∀ b ∈ blanks, Piece.isBlank b) ∧ Piece.Leads c ∧ Ragged rows (indentWidth blanks) ∧
        cause = .inconsistentDedent (indentWidth blanks) := by
  cases h with
  | ragged hmode hblanks hlead hragged =>
      exact ⟨hmode, _, _, _, rfl, hblanks, hlead, hragged, rfl⟩

/-- A line without tokens is dropped, however wide it is. -/
theorem Stuck.not_idle (h : Stuck mode rows true cs cause) {line more : List Char}
    (hidle : Piece.Idle line) (hmore : ∀ d ∈ more.head?, d = '\n') : cs ≠ line ++ more := by
  rintro rfl
  obtain ⟨-, blanks, d, rest, hline, hblanks, hlead, -⟩ := h.ragged_of_start
  exact not_leads_of_idle hidle more hmore hblanks hlead hline

theorem stuck_iff_of_foreign (h : Piece.Foreign c cs) :
    Stuck mode rows false (c :: cs) cause ↔ cause = .unrecognisedCharacter c := by
  constructor
  · intro hstuck
    cases hstuck with
    | unrecognised _ => rfl
    | unterminated _ hquote _ => exact absurd hquote h.not_quote
  · rintro rfl
    exact .unrecognised h

theorem stuck_iff_of_not_foreign (h : ¬ Piece.Foreign c cs) :
    Stuck mode rows false (c :: cs) cause ↔ cause = .unterminatedString ∧ mode = .strict ∧
      Piece.isQuote c ∧ ∀ body rest, ¬ Lexeme.Unescaped c cs body rest := by
  constructor
  · intro hstuck
    cases hstuck with
    | unrecognised hforeign => exact absurd hforeign h
    | unterminated hmode hquote hopen => exact ⟨rfl, hmode, hquote, hopen⟩
  · rintro ⟨rfl, hmode, hquote, hopen⟩
    exact .unterminated hmode hquote hopen

end

namespace Scan

variable {mode : Mode} {s t : Scan} {xs : List Token} {c : Char} {cs : List Char} {f : Fault}
  {rows : List Row}

/-- At the start of a line a scan stands in the first column, unless nothing is left. -/
def AtMargin (s : Scan) : Prop :=
  s.lineStart = true → s.reader.rest = [] ∨ s.reader.position.margin = s.reader.position

theorem atMargin_start (source : String) : AtMargin (start source) :=
  fun _ ↦ .inr rfl

theorem AtMargin.margin_eq (h : AtMargin s) (hstart : s.lineStart = true)
    (hrest : s.reader.rest ≠ []) : s.reader.position.margin = s.reader.position :=
  (h hstart).resolve_left hrest

/-- A step that starts a line has read the line break in front of it. -/
theorem Step.atMargin (h : Step mode s xs t) : AtMargin t := by
  intro hstart
  have hbreak (p : Position) : (p.past '\n').margin = p.past '\n' := rfl
  cases h with
  | drop _ _ =>
      refine .inr ?_
      rw [Reader.past, Position.pastAll_append]
      exact hbreak _
  | dropLast _ _ => exact .inl rfl
  | settle _ _ _ _ => cases hstart
  | @piece r l c cs p token hrest hpiece htoken =>
      have hshape : p.shape = .lineBreak := of_decide_eq_true hstart
      by_cases hc : c = '\n'
      · subst hc
        cases hpiece
        exact .inr (hbreak _)
      · exact absurd hshape (Piece.shape_ne_lineBreak hc hpiece)

theorem Reaches.atMargin (h : Reaches mode s xs t) (hs : AtMargin s) : AtMargin t := by
  induction h with
  | refl _ => exact hs
  | step hstep _ ih => exact ih hstep.atMargin

/-- In strict mode a line at whose start these levels are open has to be as wide as one that it
leaves open. -/
theorem startLine_eq_error_iff (hrest : s.reader.rest = c :: cs)
    (hsettles : Settles mode .margin rows)
    (hlevels : s.levels = Levels.margin.after (rows.map Row.width)) :
    s.startLine mode = .error f ↔
      Stuck mode rows true (c :: cs) f.cause ∧ f.position = s.reader.position.margin := by
  rcases start_cases (c :: cs) with hidle | ⟨line, rest, hline, hidle⟩ |
    ⟨blanks, d, rest, hline, hblanks, hlead⟩
  · rw [startLine_of_idle mode (hrest ▸ hidle)]
    have hnil : ∀ d ∈ ([] : List Char).head?, d = '\n' := nofun
    exact iff_of_false nofun fun h ↦ h.1.not_idle hidle hnil (List.append_nil _).symm
  · rw [startLine_of_line mode (hrest.trans hline) hidle]
    have hbreak : ∀ d ∈ ('\n' :: rest).head?, d = '\n' := fun d hd ↦ (Option.some.inj hd).symm
    exact iff_of_false nofun fun h ↦ h.1.not_idle hidle hbreak hline
  · rw [startLine_of_leads mode (hrest.trans hline) hblanks hlead, settle_eq]
    rw [← List.append_nil rows] at hsettles
    have hnested := Levels.margin_nested.after (rows.map Row.width)
    rw [← hlevels] at hnested
    have hragged : Ragged rows (indentWidth blanks) ↔
        (s.levels.settle (indentWidth blanks)).2.innermost ≠ indentWidth blanks := by
      rw [hsettles.ragged_iff, ← hlevels]
      exact ⟨LT.lt.ne, lt_of_le_of_ne hnested.innermost_settle_le⟩
    constructor
    · intro h
      split at h
      · next hstrict =>
          cases h
          rw [hline]
          exact ⟨.ragged hstrict.1 hblanks hlead (hragged.mpr hstrict.2), rfl⟩
      · cases h
    · rintro ⟨hstuck, hposition⟩
      obtain ⟨hmode, blanks', d', rest', hline', hblanks', hlead', hragged', hcause⟩ :=
        hstuck.ragged_of_start
      have htake := congrArg (List.takeWhile Piece.isBlank) (hline.symm.trans hline')
      rw [takeWhile_isBlank hblanks hlead.1, takeWhile_isBlank hblanks' hlead'.1] at htake
      obtain rfl := htake
      rw [if_pos ⟨hmode, hragged.mp hragged'⟩, ← hcause, ← hposition]

theorem readPiece_eq_error_iff :
    s.readPiece mode c cs = .error f ↔
      Stuck mode rows false (c :: cs) f.cause ∧ f.position = s.reader.position := by
  obtain ⟨cause, position⟩ := f
  rw [readPiece]
  cases hpiece : Piece.at? c cs with
  | none =>
      rw [stuck_iff_of_foreign (Piece.at?_eq_none_iff.mp hpiece)]
      simp [eq_comm]
  | some p =>
      have hforeign : ¬ Piece.Foreign c cs := by
        rw [← Piece.at?_eq_none_iff, hpiece]
        exact Option.some_ne_none p
      have hfails : p.token? mode s.reader.position = .error cause ↔ _ :=
        Piece.token?_eq_error_iff hpiece
      rw [stuck_iff_of_not_foreign hforeign, ← hfails]
      cases htoken : p.token? mode s.reader.position with
      | error e => simp [htoken, eq_comm]
      | ok token => simp [htoken]

theorem step_eq_error_iff (hrest : s.reader.rest = c :: cs) (hmargin : AtMargin s)
    (hlevels : s.lineStart = true →
      Settles mode .margin rows ∧ s.levels = Levels.margin.after (rows.map Row.width)) :
    s.step mode c cs = .error f ↔
      Stuck mode rows s.lineStart (c :: cs) f.cause ∧ f.position = s.reader.position := by
  cases hstart : s.lineStart with
  | false => rw [step, if_neg (by simp [hstart]), readPiece_eq_error_iff]
  | true =>
      obtain ⟨hsettles, hwidths⟩ := hlevels hstart
      have hposition := hmargin.margin_eq hstart (hrest ▸ List.cons_ne_nil c cs)
      rw [step, if_pos hstart, startLine_eq_error_iff hrest hsettles hwidths, hposition]

/-- A scan of the source comes to the text `rest`, at the start of a line or within one. What
stands in front of it can be scanned for itself and has these rows. -/
structure Comes (mode : Mode) (source : String) (before : List Char) (rows : List Row)
    (lineStart : Bool) (rest : List Char) : Prop where
  split : source.toList = before ++ rest
  reaches : ∃ xs t, Reaches mode (start source) xs t ∧ t.reader.rest = rest ∧
    t.lineStart = lineStart
  scans : ∃ ts closing, scan mode (.ofList before) = .ok ts ∧
    LaidOut mode (.ofList before) ts rows closing

variable {source : String} {before rest : List Char} {lineStart : Bool}

/-- At the start of a line the levels are open that the rows in front of it leave open. -/
theorem Reaches.exists_comes (h : Reaches mode (start source) xs t) (hrest : t.reader.rest ≠ []) :
    ∃ before rows, Comes mode source before rows t.lineStart t.reader.rest ∧
      t.reader.position = .behind before ∧ (t.lineStart = true →
        Settles mode .margin rows ∧ t.levels = Levels.margin.after (rows.map Row.width)) := by
  obtain ⟨before, hsplit, hposition⟩ := h.exists_front
  replace hsplit : source.toList = before ++ t.reader.rest := hsplit
  have hstart : start source = (start (.ofList before)).followedBy t.reader.rest := by
    simp [start, Scan.followedBy, Reader.ofString, hsplit]
  rw [hstart] at h
  obtain ⟨ys, u, hreach, hend, hu⟩ := h.truncate rfl hrest
  obtain ⟨rows, hlaid, hsettles, hlevels⟩ := hreach.rows hend
  have hscan : scan mode (.ofList before) = .ok (ys ++ u.finish) :=
    scan_eq_ok_iff.mpr ⟨ys, u, hreach, hend, rfl⟩
  refine ⟨before, rows, ⟨hsplit, ⟨xs, t, hstart ▸ h, rfl, rfl⟩, _, _, hscan, hlaid⟩, ?_, ?_⟩
  · exact hposition.trans (Position.pastAll_behind [] before)
  · exact fun hline ↦ ⟨hsettles, (congrArg levels (hu hline)).trans hlevels⟩

/-- What a scan has come to behind a text is settled by that text. -/
theorem Comes.exists_reaches (h : Comes mode source before rows lineStart rest)
    (hrest : rest ≠ []) :
    ∃ xs t, Reaches mode (start source) xs t ∧ t.reader.rest = rest ∧ t.lineStart = lineStart ∧
      t.reader.position = .behind before ∧ (lineStart = true →
        Settles mode .margin rows ∧ t.levels = Levels.margin.after (rows.map Row.width)) := by
  obtain ⟨hsplit, ⟨xs, t, hreach, rfl, rfl⟩, ts, closing, hscan, hlaid⟩ := h
  obtain ⟨before', rows', ⟨hsplit', -, ts', closing', hscan', hlaid'⟩, hposition, hlevels⟩ :=
    hreach.exists_comes hrest
  obtain rfl := List.append_cancel_right (hsplit.symm.trans hsplit')
  obtain rfl := Except.ok.inj (hscan.symm.trans hscan')
  obtain ⟨rfl, -⟩ := hlaid.unique hlaid'
  exact ⟨xs, t, hreach, rfl, rfl, hposition, hlevels⟩

end Scan

theorem Stuck.ne_nil {mode : Mode} {rows : List Row} {lineStart : Bool} {rest : List Char}
    {cause : Cause} (h : Stuck mode rows lineStart rest cause) : rest ≠ [] := by
  cases h <;> simp

/-- A scan fails exactly where it comes to a place that cannot be scanned. -/
theorem scan_eq_error_iff_stuck {mode : Mode} {source : String} {f : Fault} :
    scan mode source = .error f ↔ ∃ before rows lineStart rest,
      Scan.Comes mode source before rows lineStart rest ∧
        Stuck mode rows lineStart rest f.cause ∧ f.position = .behind before := by
  rw [scan_eq_error_iff]
  constructor
  · rintro ⟨xs, t, c, cs, hreach, hrest, hstep⟩
    have hne : t.reader.rest ≠ [] := hrest ▸ List.cons_ne_nil c cs
    obtain ⟨before, rows, hcomes, hposition, hlevels⟩ := hreach.exists_comes hne
    have hmargin := hreach.atMargin (Scan.atMargin_start source)
    obtain ⟨hstuck, hf⟩ := (Scan.step_eq_error_iff hrest hmargin hlevels).mp hstep
    exact ⟨before, rows, _, _, hcomes, hrest ▸ hstuck, hf.trans hposition⟩
  · rintro ⟨before, rows, lineStart, rest, hcomes, hstuck, hf⟩
    obtain ⟨c, cs, rfl⟩ := List.exists_cons_of_ne_nil hstuck.ne_nil
    obtain ⟨xs, t, hreach, hrest, rfl, hposition, hlevels⟩ := hcomes.exists_reaches hstuck.ne_nil
    have hmargin := hreach.atMargin (Scan.atMargin_start source)
    exact ⟨xs, t, c, cs, hreach, hrest, (Scan.step_eq_error_iff hrest hmargin hlevels).mpr
      ⟨hstuck, hf.trans hposition.symm⟩⟩

/-- A token of a source is one of the layout, or it denotes what its lexeme does. -/
inductive Token.Scanned (mode : Mode) : Token → Prop
  | layout {k : Kind} (hk : k = .indent ∨ k = .dedent ∨ k = .eof) (p : Position) :
      Scanned mode (.layout k p)
  | lexeme {t : Token} {w rest : List Char} (hlexeme : t.lexeme = String.ofList w)
      (h : Lexeme.Denotes mode rest t.kind w t.literal) : Scanned mode t

namespace Scan

variable {mode : Mode} {s t : Scan} {xs : List Token}

theorem Step.scanned (h : Step mode s xs t) : ∀ x ∈ xs, x.Scanned mode := by
  intro x hx
  cases h with
  | drop _ _ | dropLast _ _ => exact absurd hx List.not_mem_nil
  | settle _ _ _ _ =>
      obtain ⟨k, hk, rfl⟩ := List.mem_map.mp hx
      exact .layout ((kind_of_mem_settle hk).imp_right .inl) _
  | piece _ hpiece htoken =>
      obtain rfl := Option.mem_toList.mp hx
      exact .lexeme (Piece.token?_lexeme htoken).1 (Piece.denotes_of_at? hpiece htoken).1

theorem Reaches.scanned (h : Reaches mode s xs t) : ∀ x ∈ xs, x.Scanned mode := by
  induction h with
  | refl _ => exact List.forall_mem_nil _
  | step hstep _ ih => exact List.forall_mem_append.mpr ⟨hstep.scanned, ih⟩

theorem finish_scanned (s : Scan) : ∀ x ∈ s.finish, x.Scanned mode := by
  intro x hx
  obtain ⟨k, hk, rfl⟩ := List.mem_map.mp hx
  rcases List.mem_append.mp hk with hk | hk
  · exact .layout (.inr (.inl (mem_close hk))) _
  · exact .layout (.inr (.inr (List.mem_singleton.mp hk))) _

end Scan

theorem scan_scanned {mode : Mode} {source : String} {ts : List Token}
    (h : scan mode source = .ok ts) : ∀ t ∈ ts, t.Scanned mode := by
  obtain ⟨xs, u, hreach, -, rfl⟩ := scan_eq_ok_iff.mp h
  exact List.forall_mem_append.mpr ⟨hreach.scanned, u.finish_scanned⟩

/-- No number in a source is malformed, as its token has the value of its text. -/
def Token.HasValue (t : Token) : Prop :=
  ∀ lexeme, Expr.ofToken t ≠ .error (.malformedNumber lexeme)

theorem Token.Scanned.hasValue {mode : Mode} {t : Token} (h : t.Scanned mode) : t.HasValue := by
  cases h with
  | layout hk p => rcases hk with rfl | rfl | rfl <;> exact nofun
  | lexeme _ h =>
      obtain ⟨kind, lexeme, literal, position⟩ := t
      cases h with
      | keyword _ k _ => cases k <;> exact nofun
      | _ => exact nofun

theorem Cursor.mem_sealTokens {ts : List Token} {t : Token} (h : t ∈ sealTokens ts) :
    t ∈ ts ∨ ∃ p, t = .layout .eof p := by
  unfold sealTokens at h
  split at h
  · exact .inr ⟨_, List.mem_singleton.mp h⟩
  · next last _ =>
      split at h
      · exact .inl h
      · exact (List.mem_append.mp h).imp_right fun h ↦ ⟨last.position, List.mem_singleton.mp h⟩

theorem scan_hasValue {mode : Mode} {source : String} {ts : List Token}
    (h : scan mode source = .ok ts) : ∀ t ∈ Cursor.sealTokens ts, t.HasValue := by
  intro t ht
  rcases Cursor.mem_sealTokens ht with ht | ⟨p, rfl⟩
  · exact (scan_scanned h t ht).hasValue
  · have hscanned : (Token.layout .eof p).Scanned mode := .layout (.inr (.inr rfl)) p
    exact hscanned.hasValue

theorem Stuck.not_malformedNumber {mode : Mode} {rows : List Row} {lineStart : Bool}
    {rest : List Char} {cause : Cause} (h : Stuck mode rows lineStart rest cause)
    (lexeme : String) : cause ≠ .malformedNumber lexeme := by
  cases h <;> exact nofun

theorem run_not_malformedNumber {mode : Mode} {source : String} {f : Fault}
    (h : run mode source = .error f) (lexeme : String) : f.cause ≠ .malformedNumber lexeme := by
  cases hscan : scan mode source with
  | error e =>
      rw [run_of_scan_error hscan] at h
      cases h
      obtain ⟨before, rows, lineStart, rest, -, hstuck, -⟩ := scan_eq_error_iff_stuck.mp hscan
      exact hstuck.not_malformedNumber lexeme
  | ok ts =>
      rw [run_eq_parse hscan] at h
      obtain ⟨t, ht, hblamed⟩ := exists_blamed_of_parse_eq_error h
      cases hblamed with
      | unexpected _ | noExpression | tooDeep _ => exact nofun
      | noValue hread =>
          rintro rfl
          exact scan_hasValue hscan t ht lexeme hread

theorem Position.eq_behind_iff {p : Position} {cs : List Char} (h : cs.length + 1 < 2 ^ 32) :
    p = behind cs ↔ p.line.toNat = 1 + breaks cs ∧ p.column.toNat = 1 + onLine cs := by
  obtain ⟨hline, hcolumn⟩ := toNat_behind h
  rw [← hline, ← hcolumn, UInt32.toNat_inj, UInt32.toNat_inj]
  constructor
  · rintro rfl
    exact ⟨rfl, rfl⟩
  · rintro ⟨hl, hc⟩
    cases p
    cases hl
    cases hc
    rfl

/-- A source cannot be scanned exactly if a scan of it comes to a character that no token, comment
or blank begins with or, in strict mode, to a string that is not closed or to the start of a line
that is narrower than an open level and as wide as none. The fault says which and stands there. A
number is never at fault, and whatever a scan has behind it can be scanned for itself. -/
theorem scan_error_place {mode : Mode} {source : String}
    (hlength : source.toList.length < 2 ^ 32) :
    (∀ f lexeme, scan mode source = .error f → f.cause ≠ .malformedNumber lexeme) ∧
      (∀ f lexeme, run mode source = .error f → f.cause ≠ .malformedNumber lexeme) ∧
      (∀ f, scan mode source = .error f ↔ ∃ before rows lineStart rest,
        Scan.Comes mode source before rows lineStart rest ∧
          Stuck mode rows lineStart rest f.cause ∧
          f.position.line.toNat = 1 + Position.breaks before ∧
          f.position.column.toNat = 1 + Position.onLine before) ∧
      (∀ xs t, Scan.Reaches mode (.start source) xs t → t.reader.rest ≠ [] →
        ∃ before rows, Scan.Comes mode source before rows t.lineStart t.reader.rest) ∧
      ∀ cs, Piece.Foreign '!' cs ↔ cs.head? ≠ some '=' := by
  refine ⟨fun f lexeme h ↦ ?_, fun f lexeme h ↦ run_not_malformedNumber h lexeme, fun f ↦ ?_,
    fun xs t h hrest ↦ ?_, fun cs ↦ Piece.foreign_exclamation_iff⟩
  · exact run_not_malformedNumber (run_of_scan_error h) lexeme
  · rw [scan_eq_error_iff_stuck]
    refine exists_congr fun before ↦ exists_congr fun rows ↦ exists_congr fun lineStart ↦
      exists_congr fun rest ↦ and_congr_right fun hcomes ↦ and_congr_right fun hstuck ↦ ?_
    refine Position.eq_behind_iff ?_
    have hpos := List.length_pos_iff.mpr hstuck.ne_nil
    rw [hcomes.split, List.length_append] at hlength
    omega
  · obtain ⟨before, rows, hcomes, -⟩ := h.exists_comes hrest
    exact ⟨before, rows, hcomes⟩

/-- The third line goes back to a width between two open levels. -/
theorem scan_error_place_ragged :
    let source := "a\n    b\n  c\n"
    let f : Fault := ⟨.inconsistentDedent 2, ⟨3, 1⟩⟩
    source.toList.length < 2 ^ 32 ∧ scan .strict source = .error f ∧
      ∃ before rows lineStart rest, Scan.Comes .strict source before rows lineStart rest ∧
        Stuck .strict rows lineStart rest f.cause ∧
          f.position.line.toNat = 1 + Position.breaks before ∧
          f.position.column.toNat = 1 + Position.onLine before := by
  intro source f
  have hlength : source.toList.length < 2 ^ 32 := by decide
  have hscan : scan .strict source = .error f := by decide +kernel
  exact ⟨hlength, hscan, ((scan_error_place hlength).2.2.1 f).mp hscan⟩

end Offside
