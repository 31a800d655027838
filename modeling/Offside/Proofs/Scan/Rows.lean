import Offside.Proofs.Scan.Lines

/-!
# Rows

A row is a line of a source that has tokens. It may go on over line breaks inside of a string, and
the lines without tokens between two rows count for nothing. In front of the written tokens of a
row stand the indent or the dedents that its width causes, and which they are depends only on the
widths of the rows before it.
-/

namespace Offside

structure Row where
  /-- How far the row is indented. -/
  width : Nat
  /-- What the row does to the levels. -/
  opening : List Token
  /-- The tokens that have a text, with the line break at the end. -/
  written : List Token

namespace Row

def tokens (r : Row) : List Token :=
  r.opening ++ r.written

end Row

/-- The tokens from a place within a line up to the line break token, or to the end of the source
if there is none, and what stands behind them. -/
inductive Cuts (mode : Mode) : Reader → List Token → Reader → Prop
  | finish {r : Reader} (hrest : r.rest = []) : Cuts mode r [] r
  | lineBreak {r : Reader} {rest : List Char} (hrest : r.rest = '\n' :: rest) :
      Cuts mode r [⟨.newline, "\n", none, r.position⟩] (r.past ['\n'] rest)
  | piece {r r' : Reader} {c : Char} {cs : List Char} {p : Piece} {token : Option Token}
      {ts : List Token} (hrest : r.rest = c :: cs) (hpiece : Piece.at? c cs = some p)
      (htoken : p.token? mode r.position = .ok token) (hc : c ≠ '\n')
      (h : Cuts mode (r.past p.lexeme p.rest) ts r') : Cuts mode r (token.toList ++ ts) r'

/-- The rows of a text, of which each starts where the one before it ends. -/
inductive Rows (mode : Mode) : Reader → List Row → Prop
  | finish {r : Reader} (hidle : Piece.Idle r.rest) : Rows mode r []
  | drop {r : Reader} {line rest : List Char} {rows : List Row}
      (hrest : r.rest = line ++ '\n' :: rest) (hidle : Piece.Idle line)
      (h : Rows mode (r.past (line ++ ['\n']) rest) rows) : Rows mode r rows
  | row {r r' : Reader} {blanks rest : List Char} {c : Char} {q : Row} {rows : List Row}
      (hrest : r.rest = blanks ++ c :: rest) (hblanks : ∀ b ∈ blanks, Piece.isBlank b)
      (hlead : Piece.Leads c) (hwidth : q.width = indentWidth blanks)
      (hopening : ∀ t ∈ q.opening,
        t = .layout .indent r.position.margin ∨ t = .layout .dedent r.position.margin)
      (hwritten : Cuts mode (r.past blanks (c :: rest)) q.written r') (h : Rows mode r' rows) :
      Rows mode r (q :: rows)

/-- The tokens of a source are those of its rows, then dedents, then the end mark. -/
structure LaidOut (mode : Mode) (source : String) (ts : List Token) (rows : List Row)
    (closing : List Token) : Prop where
  reads : Rows mode (Reader.ofString source) rows
  tokens : ∃ p, (∀ t ∈ closing, t = .layout .dedent p) ∧
    ts = rows.flatMap Row.tokens ++ (closing ++ [.layout .eof p])

section

variable {mode : Mode} {r r' : Reader}

theorem Cuts.unique {s' : Reader} {ts us : List Token} (h : Cuts mode r ts r')
    (h' : Cuts mode r us s') : ts = us ∧ r' = s' := by
  induction h generalizing us with
  | finish hrest =>
      cases h' with
      | finish _ => exact ⟨rfl, rfl⟩
      | lineBreak hrest' | piece hrest' _ _ _ _ => cases hrest.symm.trans hrest'
  | lineBreak hrest =>
      cases h' with
      | finish hrest' => cases hrest.symm.trans hrest'
      | lineBreak hrest' =>
          obtain ⟨-, rfl⟩ := List.cons.inj (hrest.symm.trans hrest')
          exact ⟨rfl, rfl⟩
      | piece hrest' _ _ hc _ => exact absurd (List.cons.inj (hrest.symm.trans hrest')).1.symm hc
  | piece hrest hpiece htoken hc _ ih =>
      cases h' with
      | finish hrest' => cases hrest.symm.trans hrest'
      | lineBreak hrest' => exact absurd (List.cons.inj (hrest.symm.trans hrest')).1 hc
      | piece hrest' hpiece' htoken' _ h' =>
          obtain ⟨rfl, rfl⟩ := List.cons.inj (hrest.symm.trans hrest')
          obtain rfl := Option.some.inj (hpiece.symm.trans hpiece')
          obtain rfl := Except.ok.inj (htoken.symm.trans htoken')
          obtain ⟨rfl, rfl⟩ := ih h'
          exact ⟨rfl, rfl⟩

/-- What begins with a character that can be the first one of a token begins with a token. -/
theorem Cuts.exists_ink {c : Char} {cs : List Char} {ts : List Token} (h : Cuts mode r ts r')
    (hrest : r.rest = c :: cs) (hlead : Piece.Leads c) :
    ∃ t us, ts = t :: us ∧ t.kind.IsInk := by
  cases h with
  | finish hrest' => cases hrest.symm.trans hrest'
  | lineBreak hrest' => exact absurd (List.cons.inj (hrest.symm.trans hrest')).1 hlead.2.1
  | piece hrest' hpiece htoken hc _ =>
      obtain ⟨rfl, rfl⟩ := List.cons.inj (hrest.symm.trans hrest')
      rcases Piece.token?_cases htoken with ⟨hshape, -⟩ | ⟨hshape, -⟩ | ⟨-, t, rfl, ht⟩
      · exact absurd hshape (Piece.not_idle_of_leads hlead hpiece)
      · exact absurd hshape (Piece.shape_ne_lineBreak hc hpiece)
      · exact ⟨t, _, rfl, ht⟩

/-- A line without tokens has no place for the first character of one. -/
theorem not_leads_of_idle {line blanks rest : List Char} {c : Char} (hidle : Piece.Idle line)
    (more : List Char) (hmore : ∀ d ∈ more.head?, d = '\n')
    (hblanks : ∀ b ∈ blanks, Piece.isBlank b) (hlead : Piece.Leads c) :
    line ++ more ≠ blanks ++ c :: rest := by
  obtain ⟨others, note, rfl, hothers, hnote⟩ := hidle
  intro heq
  have hdrop := congrArg (List.dropWhile Piece.isBlank) heq
  rw [Scan.dropWhile_isBlank hblanks hlead.1, List.append_assoc,
    List.dropWhile_append_of_pos hothers] at hdrop
  rcases hnote with rfl | ⟨comment, rfl, -⟩
  · cases more with
    | nil => cases hdrop
    | cons d more =>
        obtain rfl := hmore d rfl
        rw [List.nil_append, List.dropWhile_cons_of_neg (by decide)] at hdrop
        exact hlead.2.1 (List.cons.inj hdrop).1.symm
  · rw [List.cons_append, List.dropWhile_cons_of_neg (by decide)] at hdrop
    exact hlead.2.2 (List.cons.inj hdrop).1.symm

/-- Tokens in front of written ones end where the written ones begin. -/
theorem opening_unique {opening opening' ts us : List Token} {t u : Token}
    {p : Position} (hopening : ∀ t ∈ opening, t = .layout .indent p ∨ t = .layout .dedent p)
    (hopening' : ∀ t ∈ opening', t = .layout .indent p ∨ t = .layout .dedent p) (ht : t.kind.IsInk)
    (hu : u.kind.IsInk) (h : opening ++ t :: ts = opening' ++ u :: us) : opening = opening' := by
  have hink {v : Token} (hv : v.kind.IsInk) :
      ¬ (v = .layout .indent p ∨ v = .layout .dedent p) := by
    rintro (rfl | rfl) <;> exact hv
  rcases List.append_eq_append_iff.mp h with ⟨ws, rfl, hws⟩ | ⟨ws, rfl, hws⟩
  · cases ws with
    | nil => exact (List.append_nil _).symm
    | cons w ws =>
        obtain ⟨rfl, -⟩ := List.cons.inj hws
        exact absurd (hopening' t (by simp)) (hink ht)
  · cases ws with
    | nil => exact List.append_nil _
    | cons w ws =>
        obtain ⟨rfl, -⟩ := List.cons.inj hws
        exact absurd (hopening u (by simp)) (hink hu)

theorem Rows.unique {rows rows' : List Row} {ts us : List Token} (h : Rows mode r rows)
    (h' : Rows mode r rows')
    (htokens : rows.flatMap Row.tokens ++ ts = rows'.flatMap Row.tokens ++ us) : rows = rows' := by
  induction h generalizing rows' with
  | finish hidle =>
      cases h' with
      | finish _ => rfl
      | drop hrest _ _ => exact absurd (by simp [hrest]) hidle.newline_notMem
      | row hrest hblanks hlead _ _ _ _ =>
          exact absurd ((List.append_nil _).trans hrest)
            (not_leads_of_idle hidle [] nofun hblanks hlead)
  | drop hrest hidle _ ih =>
      cases h' with
      | finish hidle' => exact absurd (by simp [hrest]) hidle'.newline_notMem
      | drop hrest' hidle' h' =>
          have heq := hrest.symm.trans hrest'
          have htake := congrArg (List.takeWhile (· ≠ '\n')) heq
          have hdrop := congrArg (List.dropWhile (· ≠ '\n')) heq
          rw [Scan.takeWhile_line hidle.newline_notMem,
            Scan.takeWhile_line hidle'.newline_notMem] at htake
          rw [Scan.dropWhile_line hidle.newline_notMem,
            Scan.dropWhile_line hidle'.newline_notMem] at hdrop
          obtain rfl := htake
          obtain ⟨-, rfl⟩ := List.cons.inj hdrop
          exact ih h' htokens
      | row hrest' hblanks hlead _ _ _ _ =>
          refine absurd (hrest.symm.trans hrest') (not_leads_of_idle hidle _ ?_ hblanks hlead)
          rintro d ⟨rfl⟩
          rfl
  | @row r r' blanks rest c q rows hrest hblanks hlead hwidth hopening hwritten _ ih =>
      cases h' with
      | finish hidle' =>
          exact absurd ((List.append_nil _).trans hrest)
            (not_leads_of_idle hidle' [] nofun hblanks hlead)
      | drop hrest' hidle' _ =>
          refine absurd (hrest'.symm.trans hrest) (not_leads_of_idle hidle' _ ?_ hblanks hlead)
          rintro d ⟨rfl⟩
          rfl
      | @row _ s' blanks' rest' c' q' rows' hrest' hblanks' hlead' hwidth' hopening' hwritten' h' =>
          have heq := hrest.symm.trans hrest'
          have htake := congrArg (List.takeWhile Piece.isBlank) heq
          have hdrop := congrArg (List.dropWhile Piece.isBlank) heq
          rw [Scan.takeWhile_isBlank hblanks hlead.1,
            Scan.takeWhile_isBlank hblanks' hlead'.1] at htake
          rw [Scan.dropWhile_isBlank hblanks hlead.1,
            Scan.dropWhile_isBlank hblanks' hlead'.1] at hdrop
          obtain rfl := htake
          obtain ⟨rfl, rfl⟩ := List.cons.inj hdrop
          obtain ⟨hsame, rfl⟩ := hwritten.unique hwritten'
          obtain ⟨width, opening, written⟩ := q
          obtain ⟨width', opening', _⟩ := q'
          obtain rfl := hsame
          obtain rfl := hwidth.trans hwidth'.symm
          simp only [List.flatMap_cons, Row.tokens, List.append_assoc] at htokens
          obtain rfl : opening = opening' := by
            obtain ⟨t, _, rfl, ht⟩ := hwritten.exists_ink rfl hlead
            exact opening_unique hopening hopening' ht ht htokens
          rw [ih h' (List.append_cancel_left (List.append_cancel_left htokens))]

theorem LaidOut.dedents {source : String} {ts : List Token} {rows : List Row}
    {closing : List Token} (h : LaidOut mode source ts rows closing) :
    ∀ t ∈ closing, t.kind = .dedent := by
  obtain ⟨p, hclosing, -⟩ := h.tokens
  intro t ht
  rw [hclosing t ht]
  rfl

/-- A source and its tokens are laid out in one way only. -/
theorem LaidOut.unique {source : String} {ts : List Token} {rows rows' : List Row}
    {closing closing' : List Token} (h : LaidOut mode source ts rows closing)
    (h' : LaidOut mode source ts rows' closing') : rows = rows' ∧ closing = closing' := by
  obtain ⟨p, -, htokens⟩ := h.tokens
  obtain ⟨p', -, htokens'⟩ := h'.tokens
  rw [htokens] at htokens'
  obtain rfl := h.reads.unique h'.reads htokens'
  exact ⟨rfl, (List.append_inj' (List.append_cancel_left htokens') rfl).1⟩

end

/-- The levels after lines of these widths. -/
def Levels.after (l : Levels) (widths : List Nat) : Levels :=
  widths.foldl (fun l w ↦ (l.settle w).2) l

/-- Row by row the levels are settled. In strict mode every row is as wide as one that is left. -/
def Settles (mode : Mode) : Levels → List Row → Prop
  | _, [] => True
  | l, q :: rows => q.opening.map Token.kind = (l.settle q.width).1 ∧
      (mode = .strict → (l.settle q.width).2.innermost = q.width) ∧
      Settles mode (l.settle q.width).2 rows

namespace Levels

variable (l : Levels) (ws vs : List Nat) (w : Nat)

@[simp] theorem after_nil : l.after [] = l := rfl

@[simp] theorem after_cons : l.after (w :: ws) = (l.settle w).2.after ws := rfl

theorem after_append : l.after (ws ++ vs) = (l.after ws).after vs :=
  List.foldl_append ..

end Levels

theorem Settles.drop {mode : Mode} {l : Levels} {before after : List Row}
    (h : Settles mode l (before ++ after)) :
    Settles mode (l.after (before.map Row.width)) after := by
  induction before generalizing l with
  | nil => exact h
  | cons q before ih => exact ih h.2.2

namespace Scan

variable {mode : Mode} {s t : Scan} {xs : List Token}

/-- The rows that a scan still has to read, in front of which there may be the end of one. -/
inductive Ahead (mode : Mode) : Scan → List Token → Levels → Prop
  | start {r : Reader} {l : Levels} {rows : List Row} (hrows : Rows mode r rows)
      (hsettles : Settles mode l rows) :
      Ahead mode ⟨r, l, true⟩ (rows.flatMap Row.tokens) (l.after (rows.map Row.width))
  | within {r r' : Reader} {l : Levels} {written : List Token} {rows : List Row}
      (hwritten : Cuts mode r written r') (hrows : Rows mode r' rows)
      (hsettles : Settles mode l rows) :
      Ahead mode ⟨r, l, false⟩ (written ++ rows.flatMap Row.tokens)
        (l.after (rows.map Row.width))

theorem Ahead.of_end (hend : s.reader.rest = []) : Ahead mode s [] s.levels := by
  have hidle : Piece.Idle s.reader.rest := ⟨[], [], hend, List.forall_mem_nil _, .inl rfl⟩
  obtain ⟨r, l, _ | _⟩ := s
  · exact .within (.finish hend) (.finish hidle) trivial
  · exact .start (.finish hidle) trivial

theorem Step.ahead {l : Levels} {ys : List Token} (h : Step mode s xs t)
    (ht : Ahead mode t ys l) : Ahead mode s (xs ++ ys) l := by
  cases h with
  | drop hrest hidle =>
      cases ht with
      | start hrows hsettles => exact .start (.drop hrest hidle hrows) hsettles
  | dropLast hrest hidle =>
      cases ht with
      | start hrows hsettles =>
          cases hrows with
          | finish _ => exact .start (.finish hidle) hsettles
          | drop hnil _ _ | row hnil _ _ _ _ _ _ => simp [Reader.past] at hnil
  | @settle r l blanks rest c hrest hblanks hlead hmode =>
      cases ht with
      | @within _ r' _ written rows hwritten hrows hsettles =>
          let q : Row := ⟨indentWidth blanks, (l.settle (indentWidth blanks)).1.map
            (Token.layout · r.position.margin), written⟩
          have hopening : ∀ x ∈ q.opening,
              x = .layout .indent r.position.margin ∨ x = .layout .dedent r.position.margin := by
            intro x hx
            obtain ⟨k, hk, rfl⟩ := List.mem_map.mp hx
            rcases kind_of_mem_settle hk with rfl | rfl
            · exact .inl rfl
            · exact .inr rfl
          have hkinds : q.opening.map Token.kind = (l.settle q.width).1 := by
            simp [q, Function.comp_def, Token.layout]
          have hrow : Ahead mode ⟨r, l, true⟩ ((q :: rows).flatMap Row.tokens)
              (l.after ((q :: rows).map Row.width)) :=
            .start (.row hrest hblanks hlead rfl hopening hwritten hrows) ⟨hkinds, hmode, hsettles⟩
          simpa [q, Row.tokens] using hrow
  | @piece r l c cs p token hrest hpiece htoken =>
      by_cases hc : c = '\n'
      · subst hc
        cases hpiece
        cases htoken
        cases ht with
        | start hrows hsettles => exact .within (.lineBreak hrest) hrows hsettles
      · have hshape : decide (p.shape = .lineBreak) = false :=
          decide_eq_false (Piece.shape_ne_lineBreak hc hpiece)
        rw [hshape] at ht
        cases ht with
        | within hwritten hrows hsettles =>
            rw [← List.append_assoc]
            exact .within (.piece hrest hpiece htoken hc hwritten) hrows hsettles

theorem Reaches.ahead (h : Reaches mode s xs t) (hend : t.reader.rest = []) :
    Ahead mode s xs t.levels := by
  induction h with
  | refl _ => exact .of_end hend
  | step hstep _ ih => exact hstep.ahead (ih hend)

theorem Reaches.rows {source : String} (h : Reaches mode (start source) xs t)
    (hend : t.reader.rest = []) :
    ∃ rows, LaidOut mode source (xs ++ t.finish) rows t.dedents ∧ Settles mode .margin rows ∧
      t.levels = Levels.margin.after (rows.map Row.width) := by
  have hahead := h.ahead hend
  generalize hl : t.levels = l at hahead
  generalize hs : start source = s at hahead
  cases hahead with
  | within _ _ _ => cases hs
  | start hrows hsettles =>
      cases hs
      refine ⟨_, ⟨hrows, t.reader.position, fun u hu ↦ ?_, ?_⟩, hsettles, rfl⟩
      · obtain ⟨k, hk, rfl⟩ := List.mem_map.mp hu
        rw [mem_close hk]
      · rw [finish_eq]

end Scan

/-- A source that can be scanned has rows, and each does to the levels what its width says. -/
theorem scan_rows {mode : Mode} {source : String} {ts : List Token}
    (h : scan mode source = .ok ts) :
    ∃ rows closing, LaidOut mode source ts rows closing ∧ Settles mode .margin rows ∧
      closing.map Token.kind = (Levels.margin.after (rows.map Row.width)).close := by
  obtain ⟨xs, t, hreach, hend, rfl⟩ := scan_eq_ok_iff.mp h
  obtain ⟨rows, hlaid, hsettles, hlevels⟩ := hreach.rows hend
  refine ⟨rows, t.dedents, hlaid, hsettles, ?_⟩
  simp [Scan.dedents, hlevels, Function.comp_def, Token.layout]

end Offside
