import Mathlib.Tactic.SplitIfs
import Offside.Proofs.Grammar.Reading
import Offside.Proofs.Scan.Run

/-!
# Line breaks and what stands behind them

No piece of a line goes on over a line break but a string that has no closing quote. So what stands
behind a line break makes no difference in front of it, and a source whose strings are all closed
gives the same tokens with one more line break at its end, except that the break ends its last line
if that line has tokens.
-/

namespace Offside

/-- What follows an opening quote up to its closing quote. -/
inductive Piece.Closes (quote : Char) : List Char → Prop
  | close : Closes quote [quote]
  | escape {c : Char} {cs : List Char} (h : Closes quote cs) : Closes quote ('\\' :: c :: cs)
  | plain {c : Char} {cs : List Char} (hquote : c ≠ quote) (hescape : c ≠ '\\')
      (h : Closes quote cs) : Closes quote (c :: cs)

/-- A string has its closing quote. -/
def Token.IsClosed (t : Token) : Prop :=
  t.kind = .string → ∃ quote cs, t.lexeme.toList = quote :: cs ∧ Piece.Closes quote cs

namespace Piece

theorem stringFrom_closes {quote : Char} (hquote : quote ≠ '\\') (value lexeme cs : List Char) :
    ∃ used text closed, (stringFrom quote value lexeme cs).lexeme = lexeme.reverse ++ used ∧
      (stringFrom quote value lexeme cs).shape = .string text closed ∧
      (closed = true ↔ Closes quote used) := by
  fun_induction stringFrom quote value lexeme cs with
  | case1 value lexeme =>
      exact ⟨[], _, false, by simp, rfl, by simp, fun h ↦ by cases h⟩
  | case2 value lexeme cs =>
      exact ⟨[quote], _, true, by simp, rfl, fun _ ↦ .close, fun _ ↦ rfl⟩
  | case3 value lexeme hne =>
      refine ⟨['\\'], _, false, by simp, rfl, by simp, fun h ↦ ?_⟩
      cases h with
      | close => exact absurd rfl hne
      | plain _ hescape _ => exact absurd rfl hescape
  | case4 value lexeme d ds hne ih =>
      obtain ⟨used, text, closed, hlexeme, hshape, hcloses⟩ := ih
      refine ⟨'\\' :: d :: used, text, closed, by simpa using hlexeme, hshape, ?_⟩
      rw [hcloses]
      constructor
      · exact .escape
      · intro h
        cases h with
        | escape h => exact h
        | plain _ hescape _ => exact absurd rfl hescape
  | case5 value lexeme c cs hne hescape ih =>
      obtain ⟨used, text, closed, hlexeme, hshape, hcloses⟩ := ih
      refine ⟨c :: used, text, closed, by simpa using hlexeme, hshape, ?_⟩
      rw [hcloses]
      constructor
      · exact .plain hne hescape
      · intro h
        cases h with
        | close => exact absurd rfl hne
        | escape _ => exact absurd rfl hescape
        | plain _ _ h => exact h

theorem stringFrom_append_of_closed {quote : Char} {value lexeme cs text : List Char}
    (h : (stringFrom quote value lexeme cs).shape = .string text true) (ds : List Char) :
    stringFrom quote value lexeme (cs ++ ds) =
      { stringFrom quote value lexeme cs with
        rest := (stringFrom quote value lexeme cs).rest ++ ds } := by
  fun_induction stringFrom quote value lexeme cs with
  | case1 _ _ => simp at h
  | case2 value lexeme cs =>
      rw [List.cons_append, stringFrom.eq_def]
      simp
  | case3 _ _ _ => simp at h
  | case4 value lexeme d es hne ih =>
      rw [List.cons_append, List.cons_append, stringFrom.eq_def]
      simpa [hne] using ih h
  | case5 value lexeme c cs hne hescape ih =>
      rw [List.cons_append, stringFrom.eq_def]
      simpa [hne, hescape] using ih h

/-- There is a line break in the text or right behind it, in front of `ds`. -/
def BreaksOff (cs ds : List Char) : Prop :=
  '\n' ∈ cs ∨ ds.head? = some '\n'

theorem BreaksOff.of_cons {c : Char} {cs ds : List Char} (h : BreaksOff (c :: cs) ds)
    (hc : c ≠ '\n') : BreaksOff cs ds :=
  h.imp_left fun h ↦ (List.mem_cons.mp h).resolve_left hc.symm

section

variable {p : Char → Bool} (hp : p '\n' = false) {cs ds : List Char} (h : BreaksOff cs ds)

include hp h

theorem takeWhile_append_break : (cs ++ ds).takeWhile p = cs.takeWhile p := by
  induction cs with
  | nil =>
      cases ds with
      | nil => rfl
      | cons d ds =>
          obtain rfl : d = '\n' := by simpa [BreaksOff] using h
          exact List.takeWhile_cons_of_neg (by simp [hp])
  | cons c cs ih =>
      rw [List.cons_append, List.takeWhile_cons, List.takeWhile_cons]
      split
      · next hc => rw [ih (h.of_cons (by rintro rfl; simp [hp] at hc))]
      · rfl

theorem dropWhile_append_break : (cs ++ ds).dropWhile p = cs.dropWhile p ++ ds := by
  induction cs with
  | nil =>
      cases ds with
      | nil => rfl
      | cons d ds =>
          obtain rfl : d = '\n' := by simpa [BreaksOff] using h
          exact List.dropWhile_cons_of_neg (by simp [hp])
  | cons c cs ih =>
      rw [List.cons_append, List.dropWhile_cons, List.dropWhile_cons]
      split
      · next hc => rw [ih (h.of_cons (by rintro rfl; simp [hp] at hc))]
      · rfl

theorem run_append_break (shape : Shape) (c : Char) :
    run shape p c (cs ++ ds) = { run shape p c cs with rest := (run shape p c cs).rest ++ ds } := by
  rw [run, takeWhile_append_break hp h, dropWhile_append_break hp h]
  rfl

end

section

variable {c : Char} {cs ds : List Char} (hbreak : BreaksOff cs ds)

include hbreak

theorem BreaksOff.dropWhile {p : Char → Bool} (hp : p '\n' = false) :
    BreaksOff (cs.dropWhile p) ds := by
  refine hbreak.imp_left fun hmem ↦ ?_
  rw [← List.takeWhile_append_dropWhile (p := p) (l := cs)] at hmem
  refine (List.mem_append.mp hmem).resolve_left fun htake ↦ ?_
  simp [List.mem_takeWhile_imp htake] at hp

theorem numeral_append_break (c : Char) :
    numeral c (cs ++ ds) = { numeral c cs with rest := (numeral c cs).rest ++ ds } := by
  have hdigit : Char.isDigit '\n' = false := by decide
  have hrest := hbreak.dropWhile hdigit
  simp only [numeral, takeWhile_append_break hdigit hbreak, dropWhile_append_break hdigit hbreak]
  cases hcs : cs.dropWhile Char.isDigit with
  | nil =>
      rw [hcs] at hrest
      cases ds with
      | nil => rfl
      | cons d ds =>
          obtain rfl : d = '\n' := by simpa [BreaksOff] using hrest
          rfl
  | cons d es =>
      by_cases hpoint : d = '.'
      · subst hpoint
        rw [hcs] at hrest
        have hplaces := hrest.of_cons (by decide)
        simp [takeWhile_append_break hdigit hplaces, dropWhile_append_break hdigit hplaces]
      · simp [hpoint]

theorem mark?_append_break {p : Piece} (h : mark? c cs = some p) :
    mark? c (cs ++ ds) = some { p with rest := p.rest ++ ds } := by
  have hpair : Mark.ofPair? c '\n' = none := by
    unfold Mark.ofPair?
    split <;> simp_all
  unfold mark? at h
  split at h
  · obtain ⟨m, hm, rfl⟩ := Option.map_eq_some_iff.mp h
    cases ds with
    | nil => simp [mark?, hm]
    | cons d ds =>
        obtain rfl : d = '\n' := by simpa [BreaksOff] using hbreak
        simp [mark?, hpair, hm]
  · split at h
    · next hm =>
        cases h
        simp [mark?, hm]
    · next hm =>
        obtain ⟨m, hm', rfl⟩ := Option.map_eq_some_iff.mp h
        simp [mark?, hm, hm']

end

theorem ne_backslash_of_isQuote {c : Char} (h : isQuote c) : c ≠ '\\' := by
  rintro rfl
  exact absurd h (by decide)

theorem shape_stringFrom_of_closed {c : Char} {cs : List Char} (hquote : isQuote c)
    (hclosed : ∀ text, (stringFrom c [] [c] cs).shape ≠ .string text false) :
    ∃ text, (stringFrom c [] [c] cs).shape = .string text true := by
  obtain ⟨-, text, closed, -, hshape, -⟩ :=
    stringFrom_closes (ne_backslash_of_isQuote hquote) [] [c] cs
  cases closed with
  | true => exact ⟨text, hshape⟩
  | false => exact absurd hshape (hclosed text)

theorem at?_append_break {c : Char} {cs ds : List Char} {p : Piece} (h : at? c cs = some p)
    (hbreak : BreaksOff (c :: cs) ds) (hclosed : ∀ text, p.shape ≠ .string text false) :
    at? c (cs ++ ds) = some { p with rest := p.rest ++ ds } := by
  by_cases hc : c = '\n'
  · subst hc
    cases h
    rfl
  have hbreak := hbreak.of_cons hc
  unfold at? at h ⊢
  split_ifs at h ⊢ with _ _ _ hquote
  · cases h
    rw [run_append_break (by decide) hbreak]
  · cases h
    rw [run_append_break (by decide) hbreak]
  · cases h
    rw [numeral_append_break hbreak]
  · cases h
    obtain ⟨text, hshape⟩ := shape_stringFrom_of_closed hquote hclosed
    rw [stringFrom_append_of_closed hshape]
  · cases h
    rw [run_append_break (by decide +kernel) hbreak]
  · exact mark?_append_break hbreak h

theorem shape_numeral (c : Char) (cs : List Char) :
    (numeral c cs).shape = .integer ∨ (numeral c cs).shape = .decimal := by
  unfold numeral
  split
  · exact .inr rfl
  · exact .inl rfl

theorem shape_of_mark? {c : Char} {cs : List Char} {p : Piece} (h : mark? c cs = some p) :
    ∃ m, p.shape = .mark m := by
  unfold mark? at h
  split at h
  · obtain ⟨m, -, rfl⟩ := Option.map_eq_some_iff.mp h
    exact ⟨m, rfl⟩
  · split at h
    · cases h
      exact ⟨_, rfl⟩
    · obtain ⟨m, -, rfl⟩ := Option.map_eq_some_iff.mp h
      exact ⟨m, rfl⟩

theorem at?_of_string {c : Char} {cs text : List Char} {p : Piece} {closed : Bool}
    (h : at? c cs = some p) (hshape : p.shape = .string text closed) :
    isQuote c ∧ p = stringFrom c [] [c] cs := by
  unfold at? at h
  split_ifs at h with _ _ _ _ hquote
  · cases h
    cases hshape
  · cases h
    cases hshape
  · cases h
    cases hshape
  · cases h
    rcases shape_numeral c cs with hnumeral | hnumeral <;> simp [hnumeral] at hshape
  · cases h
    exact ⟨hquote, rfl⟩
  · cases h
    cases hshape
  · obtain ⟨m, hm⟩ := shape_of_mark? h
    simp [hm] at hshape

theorem not_idle_of_leads {c : Char} {cs : List Char} {p : Piece} (hlead : Leads c)
    (h : at? c cs = some p) : ¬ (p.shape = .blank ∨ p.shape = .comment) := by
  obtain ⟨hblank, hbreak, hnote⟩ := hlead
  unfold at? at h
  split_ifs at h with _ hquote
  · cases h
    rcases shape_numeral c cs with hnumeral | hnumeral <;> simp [hnumeral]
  · cases h
    obtain ⟨-, text, closed, -, hshape, -⟩ :=
      stringFrom_closes (ne_backslash_of_isQuote hquote) [] [c] cs
    simp [hshape]
  · cases h
    simp [run]
  · obtain ⟨m, hm⟩ := shape_of_mark? h
    simp [hm]

theorem token?_of_string {mode : Mode} {position : Position} {p : Piece} {text : List Char}
    {closed : Bool} {token : Option Token} (hshape : p.shape = .string text closed)
    (h : p.token? mode position = .ok token) :
    ∃ t, token = some t ∧ t.kind = .string ∧ t.lexeme = String.ofList p.lexeme := by
  unfold token? at h
  simp only [hshape] at h
  split at h
  · cases h
  · cases h
    exact ⟨_, rfl, rfl, rfl⟩

/-- A string is a closed token only if its closing quote was found. -/
theorem closed_of_token? {mode : Mode} {position : Position} {c : Char} {cs : List Char}
    {p : Piece} {token : Option Token} (h : at? c cs = some p)
    (htoken : p.token? mode position = .ok token) (hclosed : ∀ t ∈ token, t.IsClosed)
    (text : List Char) : p.shape ≠ .string text false := by
  intro hshape
  obtain ⟨t, rfl, hkind, hlexeme⟩ := token?_of_string hshape htoken
  obtain ⟨hquote, rfl⟩ := at?_of_string h hshape
  obtain ⟨quote, ds, hds, hcloses⟩ := hclosed t rfl hkind
  obtain ⟨used, text', closed, hused, hshape', hiff⟩ :=
    stringFrom_closes (ne_backslash_of_isQuote hquote) [] [c] cs
  rw [hlexeme, hused] at hds
  obtain ⟨rfl, rfl⟩ : c = quote ∧ used = ds := by simpa using hds
  rw [hiff.mpr hcloses, hshape] at hshape'
  cases hshape'

/-- Strict scanning accepts closed strings only. -/
theorem closed_of_strict {position : Position} (p : Piece) {token : Option Token}
    (htoken : p.token? .strict position = .ok token) (text : List Char) :
    p.shape ≠ .string text false := by
  intro hshape
  simp [token?, hshape, Mode.isStrict] at htoken

end Piece

namespace Scan

variable {mode : Mode} {s t : Scan}

/-- The same scan of a source with one more line break at its end. -/
def extend (s : Scan) : Scan :=
  { s with reader := { s.reader with rest := s.reader.rest ++ ['\n'] } }

theorem extend_start (source : String) : (start source).extend = start (source ++ "\n") := by
  simp [extend, start, Reader.ofString, String.toList_append]

/-- The same scan of a text with more behind it. -/
def followedBy (s : Scan) (ds : List Char) : Scan :=
  { s with reader := { s.reader with rest := s.reader.rest ++ ds } }

/-- What stands behind a line break makes no difference to a step, unless the step drops the last
line. -/
theorem Step.followedBy {xs : List Token} (h : Step mode s xs t) (ds : List Char)
    (hbreak : Piece.BreaksOff s.reader.rest ds) (hclosed : mode = .strict ∨ ∀ x ∈ xs, x.IsClosed) :
    Step mode (s.followedBy ds) xs (t.followedBy ds) ∨
      s.lineStart = true ∧ Piece.Idle s.reader.rest ∧ xs = [] ∧
        t = ⟨s.reader.past s.reader.rest [], s.levels, true⟩ := by
  cases h with
  | @drop r l line rest hrest hidle =>
      have hrest' : r.rest ++ ds = line ++ '\n' :: (rest ++ ds) := by simp [hrest]
      exact .inl (.drop (r := ⟨r.rest ++ ds, r.position⟩) hrest' hidle)
  | @dropLast r l hrest hidle => exact .inr ⟨rfl, hidle, rfl, rfl⟩
  | @settle r l blanks rest c hrest hblanks hlead hmode =>
      have hrest' : r.rest ++ ds = blanks ++ c :: (rest ++ ds) := by simp [hrest]
      exact .inl (.settle (r := ⟨r.rest ++ ds, r.position⟩) hrest' hblanks hlead hmode)
  | @piece r l c cs p token hrest hpiece htoken =>
      have hrest' : r.rest ++ ds = c :: (cs ++ ds) := by simp [hrest]
      have hshape : ∀ text, p.shape ≠ .string text false := by
        rcases hclosed with rfl | hclosed
        · exact p.closed_of_strict htoken
        · exact Piece.closed_of_token? hpiece htoken fun x hx ↦
            hclosed x (Option.mem_toList.mpr hx)
      rw [show r.rest = c :: cs from hrest] at hbreak
      have hpiece' := Piece.at?_append_break hpiece hbreak hshape
      exact .inl (.piece (r := ⟨r.rest ++ ds, r.position⟩) hrest' hpiece' htoken)

/-- The last line without tokens is dropped in one step, with the line break or without it. -/
theorem Step.extend {xs : List Token} (h : Step mode s xs t) (hclosed : ∀ x ∈ xs, x.IsClosed) :
    Step mode s.extend xs t.extend ∨ t.reader.rest = [] ∧
      ∃ u, Step mode s.extend xs u ∧ u.reader.rest = [] ∧ u.levels = t.levels := by
  rcases h.followedBy ['\n'] (.inr rfl) (.inr hclosed) with hstep | ⟨hstart, hidle, rfl, rfl⟩
  · exact .inl hstep
  · obtain ⟨r, l, _ | _⟩ := s
    · cases hstart
    · exact .inr ⟨rfl, _, .drop (r := ⟨r.rest ++ ['\n'], r.position⟩) rfl hidle, rfl, rfl⟩

theorem step_break (mode : Mode) (r : Reader) (l : Levels) (hrest : r.rest = ['\n'])
    (lineStart : Bool) :
    ∃ xs u, Step mode ⟨r, l, lineStart⟩ xs u ∧ u.reader.rest = [] ∧ u.levels = l ∧
      (lineStart = true ∧ xs = [] ∨ lineStart = false ∧ ∃ x, x.kind = .newline ∧ xs = [x]) := by
  cases lineStart with
  | true =>
      have hidle : Piece.Idle [] := ⟨[], [], rfl, nofun, .inl rfl⟩
      exact ⟨_, _, .drop hrest hidle, rfl, rfl, .inl ⟨rfl, rfl⟩⟩
  | false =>
      have hpiece : Piece.at? '\n' [] = some ⟨.lineBreak, ['\n'], []⟩ := rfl
      refine ⟨_, _, .piece hrest hpiece rfl, rfl, rfl, .inr ⟨rfl, _, ?_, rfl⟩⟩
      rfl

theorem Reaches.eq_of_rest_eq_nil {xs : List Token} (h : Reaches mode s xs t)
    (hrest : s.reader.rest = []) : xs = [] ∧ t = s := by
  cases h with
  | refl _ => exact ⟨rfl, rfl⟩
  | step hstep _ => exact absurd hrest hstep.rest_ne_nil

/-- With a line break at its end a scan adds no token, or that line break if it is in a line. -/
theorem Reaches.extend {xs : List Token} (h : Reaches mode s xs t) (hend : t.reader.rest = [])
    (hclosed : ∀ x ∈ xs, x.IsClosed) :
    ∃ ys u, Reaches mode s.extend ys u ∧ u.reader.rest = [] ∧ u.levels = t.levels ∧
      (ys = xs ∨ t.lineStart = false ∧ ∃ x, x.kind = .newline ∧ ys = xs ++ [x]) := by
  induction h with
  | refl s =>
      obtain ⟨xs, u, hstep, hrest, hlevels, hxs⟩ :=
        step_break mode s.extend.reader s.levels (by simp [Scan.extend, hend]) s.lineStart
      refine ⟨xs, u, .single hstep, hrest, hlevels, ?_⟩
      rcases hxs with ⟨-, rfl⟩ | ⟨hline, x, hx, rfl⟩
      · exact .inl rfl
      · exact .inr ⟨hline, x, hx, rfl⟩
  | @step s t' t xs ys hstep hreach ih =>
      rcases hstep.extend fun x hx ↦ hclosed x (List.mem_append_left _ hx) with
        hstep' | ⟨hrest, u, hstep', hu, hlevels⟩
      · obtain ⟨zs, u, hreach', hu, hlevels, hzs⟩ :=
          ih hend fun x hx ↦ hclosed x (List.mem_append_right _ hx)
        refine ⟨xs ++ zs, u, .step hstep' hreach', hu, hlevels, ?_⟩
        rcases hzs with rfl | ⟨hline, x, hx, rfl⟩
        · exact .inl rfl
        · exact .inr ⟨hline, x, hx, (List.append_assoc ..).symm⟩
      · obtain ⟨rfl, rfl⟩ := hreach.eq_of_rest_eq_nil hrest
        exact ⟨xs, u, .single hstep', hu, hlevels, .inl (List.append_nil xs).symm⟩

/-- In a line there is a token behind the scan or in front of it. -/
def InLine (ws : List Token) (s : Scan) : Prop :=
  s.lineStart = true ∨ (∃ ys x, ws = ys ++ [x] ∧ x.kind.IsInk) ∨
    ∃ c cs, s.reader.rest = c :: cs ∧ Piece.Leads c

theorem Step.inLine {ws xs : List Token} (h : Step mode s xs t) (hs : InLine ws s) :
    InLine (ws ++ xs) t := by
  cases h with
  | drop _ _ | dropLast _ _ => exact .inl rfl
  | settle _ _ hlead _ => exact .inr (.inr ⟨_, _, rfl, hlead⟩)
  | @piece r l c cs p token hrest hpiece htoken =>
      rcases Piece.token?_cases htoken with ⟨hshape, rfl⟩ | ⟨hshape, -⟩ | ⟨-, y, rfl, hy⟩
      · rcases hs with hstart | hink | ⟨d, ds, hd, hlead⟩
        · cases hstart
        · exact .inr (.inl (by simpa using hink))
        · obtain ⟨rfl, rfl⟩ := List.cons.inj (hrest.symm.trans hd)
          exact absurd hshape (Piece.not_idle_of_leads hlead hpiece)
      · exact .inl (decide_eq_true hshape)
      · exact .inr (.inl ⟨ws, y, rfl, hy⟩)

/-- With one more line break at its end a source has the same tokens, up to the positions of those
that close it, or that line break as well, right behind a token of the last line. -/
theorem scan_append_newline {source : String} {ts : List Token} (h : scan mode source = .ok ts)
    (hclosed : ∀ x ∈ ts, x.IsClosed) :
    ∃ xs ys, ∃ t u : Scan, ts = xs ++ t.finish ∧
      scan mode (source ++ "\n") = .ok (ys ++ u.finish) ∧ (∀ x ∈ xs, x.kind ≠ .eof) ∧
      (∀ x ∈ ys, x.kind ≠ .eof) ∧ u.levels = t.levels ∧ (ys = xs ∨
        ∃ ws w x, xs = ws ++ [w] ∧ w.kind.IsInk ∧ x.kind = .newline ∧ ys = xs ++ [x]) := by
  obtain ⟨xs, t, hreach, hend, rfl⟩ := scan_eq_ok_iff.mp h
  obtain ⟨ys, u, hreach', hend', hlevels, hys⟩ :=
    hreach.extend hend fun x hx ↦ hclosed x (List.mem_append_left _ hx)
  rw [extend_start] at hreach'
  refine ⟨xs, ys, t, u, rfl, scan_eq_ok_iff.mpr ⟨ys, u, hreach', hend', rfl⟩, hreach.ne_eof,
    hreach'.ne_eof, hlevels, ?_⟩
  rcases hys with rfl | ⟨hline, x, hx, rfl⟩
  · exact .inl rfl
  · have hinLine : InLine ([] ++ xs) t := hreach.invariant (fun _ _ _ _ ↦ Step.inLine) (.inl rfl)
    rcases hinLine with hstart | ⟨ws, w, hws, hw⟩ | ⟨c, cs, hrest, -⟩
    · simp [hline] at hstart
    · exact .inr ⟨ws, w, x, hws, hw, hx, rfl⟩
    · simp [hend] at hrest

end Scan
end Offside
