import Offside.Proofs.Scan.Rows

/-!
# Indentation by the history of widths

Which levels are open in front of a row can be told from the rows before it, without levels: they
are the widths of the rows that opened a level and have had no narrower row behind them since. A
row opens a level if it is wider than all of these, and the first narrower row behind it closes
that level. Two rows of equal width in a row have nothing between them, but for one case: a lenient
scan lets a row go back to a width between two open levels, and as no level of that width is open
then, the next row of the same width opens one.
-/

namespace Offside

namespace Levels

/-- Every level is wider than the one around it, and the outermost one is wider than the margin. -/
structure Nested (l : Levels) : Prop where
  decreasing : l.widths.Pairwise (· > ·)
  positive : ∀ w ∈ l.widths, 0 < w

variable {l : Levels} {v w : Nat}

theorem margin_nested : margin.Nested :=
  ⟨.nil, List.forall_mem_nil _⟩

theorem innermost_cases (l : Levels) : l.innermost = 0 ∨ l.innermost ∈ l.widths := by
  obtain ⟨_ | ⟨w, ws⟩⟩ := l
  · exact .inl rfl
  · exact .inr List.mem_cons_self

theorem Nested.le_innermost (h : l.Nested) (hw : w ∈ l.widths) : w ≤ l.innermost := by
  obtain ⟨_ | ⟨v, vs⟩⟩ := l
  · cases hw
  · rcases List.mem_cons.mp hw with rfl | hw
    · exact le_rfl
    · exact ((List.pairwise_cons.mp h.decreasing).1 w hw).le

/-- What is wider than all open levels is wider than the innermost one. -/
theorem Nested.innermost_lt_iff (h : l.Nested) :
    l.innermost < v ↔ ∀ w, w = 0 ∨ w ∈ l.widths → w < v := by
  constructor
  · rintro hv w (rfl | hw)
    · exact Nat.zero_lt_of_lt hv
    · exact (h.le_innermost hw).trans_lt hv
  · exact fun hall ↦ hall _ l.innermost_cases

theorem mem_dropWhile_of_decreasing {ws : List Nat} (h : ws.Pairwise (· > ·)) :
    w ∈ ws.dropWhile (v < ·) ↔ w ∈ ws ∧ w ≤ v := by
  induction ws with
  | nil => simp
  | cons u us ih =>
      obtain ⟨hu, hus⟩ := List.pairwise_cons.mp h
      by_cases hv : v < u
      · rw [List.dropWhile_cons_of_pos (by simpa using hv), ih hus, List.mem_cons]
        constructor
        · exact fun hw ↦ ⟨.inr hw.1, hw.2⟩
        · rintro ⟨rfl | hw, hle⟩
          · omega
          · exact ⟨hw, hle⟩
      · rw [List.dropWhile_cons_of_neg (by simpa using hv)]
        refine ⟨fun hw ↦ ⟨hw, ?_⟩, And.left⟩
        rcases List.mem_cons.mp hw with rfl | hw
        · omega
        · have hlt := hu w hw
          omega

/-- A line leaves open the levels that are not wider than itself, and its own if it opens one. -/
theorem Nested.mem_settle (h : l.Nested) :
    w ∈ (l.settle v).2.widths ↔ l.innermost < v ∧ w = v ∨ w ∈ l.widths ∧ w ≤ v := by
  by_cases hv : l.innermost < v
  · rw [settle_of_lt hv, List.mem_cons]
    constructor
    · exact Or.imp (fun hw ↦ ⟨hv, hw⟩) fun hw ↦ ⟨hw, (h.le_innermost hw).trans hv.le⟩
    · exact Or.imp And.right And.left
  · rw [settle_of_le (Nat.not_lt.mp hv), mem_dropWhile_of_decreasing h.decreasing]
    exact (or_iff_right fun hopens ↦ hv hopens.1).symm

theorem Nested.settle (h : l.Nested) (v : Nat) : (l.settle v).2.Nested := by
  by_cases hv : l.innermost < v
  · rw [settle_of_lt hv]
    exact ⟨List.pairwise_cons.mpr ⟨fun w hw ↦ (h.le_innermost hw).trans_lt hv, h.decreasing⟩,
      List.forall_mem_cons.mpr ⟨Nat.zero_lt_of_lt hv, h.positive⟩⟩
  · rw [settle_of_le (Nat.not_lt.mp hv)]
    exact ⟨h.decreasing.sublist (List.dropWhile_sublist _),
      fun w hw ↦ h.positive w ((List.dropWhile_sublist _).mem hw)⟩

theorem Nested.after (h : l.Nested) (ws : List Nat) : (l.after ws).Nested := by
  induction ws generalizing l with
  | nil => exact h
  | cons w ws ih => exact ih (h.settle w)

/-- A level of the width of the line is open behind its first token, or else only narrower ones
are. -/
theorem Nested.innermost_settle_lt_iff (h : l.Nested) :
    (l.settle w).2.innermost < w ↔ w < l.innermost ∧ w ≠ 0 ∧ w ∉ l.widths := by
  rw [(h.settle w).innermost_lt_iff]
  constructor
  · intro hall
    have hmem : w ∉ (l.settle w).2.widths := fun hw ↦ lt_irrefl w (hall w (.inr hw))
    rw [h.mem_settle] at hmem
    have hzero : w ≠ 0 := fun hw ↦ by simpa [hw] using hall 0 (.inl rfl)
    have hnot : w ∉ l.widths := fun hw ↦ hmem (.inr ⟨hw, le_rfl⟩)
    have hle : ¬ l.innermost < w := fun hlt ↦ hmem (.inl ⟨hlt, rfl⟩)
    refine ⟨lt_of_le_of_ne (Nat.not_lt.mp hle) ?_, hzero, hnot⟩
    rintro rfl
    exact l.innermost_cases.elim hzero hnot
  · rintro ⟨hlt, hzero, hnot⟩ v (rfl | hv)
    · exact Nat.pos_of_ne_zero hzero
    · rcases h.mem_settle.mp hv with ⟨hopens, -⟩ | ⟨hv, hle⟩
      · omega
      · exact lt_of_le_of_ne hle fun heq ↦ hnot (heq ▸ hv)

theorem Nested.innermost_settle_le (h : l.Nested) : (l.settle w).2.innermost ≤ w := by
  rcases (l.settle w).2.innermost_cases with hzero | hmem
  · omega
  · rcases h.mem_settle.mp hmem with ⟨-, heq⟩ | ⟨-, hle⟩
    · exact heq.le
    · exact hle

theorem dedent_mem_settle (h : w < l.innermost) : .dedent ∈ (l.settle w).1 := by
  rw [settle_of_le h.le]
  obtain ⟨_ | ⟨v, vs⟩⟩ := l
  · cases h
  · rw [List.takeWhile_cons_of_pos (by simpa [innermost] using h)]
    exact List.mem_cons_self

/-- What one more line of the same width does. -/
theorem Nested.settle_again (h : l.Nested) : ((l.settle w).2.settle w).1 =
    if (l.settle w).2.innermost < w then [.indent] else [] := by
  split
  · next hlt => rw [settle_of_lt hlt]
  · next hle =>
      have heq := h.innermost_settle_le.antisymm (Nat.not_lt.mp hle)
      have hsettle := (l.settle w).2.settle_innermost
      rw [heq] at hsettle
      rw [hsettle]

end Levels

/-- The row opens a level. -/
def Row.Opens (q : Row) : Prop :=
  ∃ t ∈ q.opening, t.kind = .indent

/-- A row that opened a level of this width, and no narrower one behind it. -/
def StillOpen (rows : List Row) (w : Nat) : Prop :=
  ∃ before q after, rows = before ++ q :: after ∧ q.Opens ∧ q.width = w ∧
    ∀ r ∈ after, w ≤ r.width

/-- A width to which one can only go back by closing a level, though none of this width is open. -/
def Ragged (rows : List Row) (w : Nat) : Prop :=
  (∃ v, StillOpen rows v ∧ w < v) ∧ w ≠ 0 ∧ ¬ StillOpen rows w

theorem stillOpen_concat {rows : List Row} {q : Row} {w : Nat} :
    StillOpen (rows ++ [q]) w ↔ q.Opens ∧ w = q.width ∨ StillOpen rows w ∧ w ≤ q.width := by
  constructor
  · rintro ⟨before, r, after, hsplit, hopens, rfl, hafter⟩
    rcases List.eq_nil_or_concat after with rfl | ⟨after, p, rfl⟩
    · obtain ⟨-, ⟨⟩⟩ := List.append_inj' hsplit rfl
      exact .inl ⟨hopens, rfl⟩
    · rw [List.concat_eq_append, ← List.cons_append, ← List.append_assoc] at hsplit
      obtain ⟨rfl, ⟨⟩⟩ := List.append_inj' hsplit rfl
      rw [List.concat_eq_append] at hafter
      exact .inr ⟨⟨before, r, after, rfl, hopens, rfl, fun p hp ↦ hafter p (by simp [hp])⟩,
        hafter q (by simp)⟩
  · rintro (⟨hopens, rfl⟩ | ⟨⟨before, r, after, rfl, hopens, rfl, hafter⟩, hle⟩)
    · exact ⟨rows, q, [], rfl, hopens, rfl, List.forall_mem_nil _⟩
    · refine ⟨before, r, after ++ [q], by simp, hopens, rfl, fun p hp ↦ ?_⟩
      rcases List.mem_append.mp hp with hp | hp
      · exact hafter p hp
      · rwa [List.mem_singleton.mp hp]

namespace Settles

variable {mode : Mode} {l : Levels} {rows before after : List Row} {q : Row} {w : Nat}

/-- What a row does to the levels that the rows before it leave open. -/
theorem opening_eq (h : Settles mode l (before ++ q :: after)) :
    q.opening.map Token.kind = ((l.after (before.map Row.width)).settle q.width).1 :=
  h.drop.1

theorem opens_iff (h : Settles mode l (before ++ q :: after)) :
    q.Opens ↔ (l.after (before.map Row.width)).innermost < q.width := by
  have hkinds : q.Opens ↔ .indent ∈ q.opening.map Token.kind := List.mem_map.symm
  rw [hkinds, h.opening_eq]
  constructor
  · intro hmem
    by_contra hle
    rw [Levels.settle_of_le (Nat.not_lt.mp hle)] at hmem
    obtain ⟨-, -, ⟨⟩⟩ := List.mem_map.mp hmem
  · intro hlt
    rw [Levels.settle_of_lt hlt]
    exact List.mem_singleton_self _

/-- The open levels, by the history of the rows. -/
theorem mem_after_iff (h : Settles mode .margin (before ++ after)) :
    w ∈ (Levels.margin.after (before.map Row.width)).widths ↔ StillOpen before w := by
  induction before using List.reverseRecOn generalizing after w with
  | nil => simp [StillOpen, Levels.margin]
  | append_singleton before q ih =>
      rw [List.append_assoc, List.singleton_append] at h
      rw [List.map_append, Levels.after_append, stillOpen_concat, h.opens_iff, ← ih h]
      exact (Levels.margin_nested.after _).mem_settle

theorem ragged_iff (h : Settles mode .margin (before ++ after)) :
    Ragged before w ↔ ((Levels.margin.after (before.map Row.width)).settle w).2.innermost < w := by
  have hnested := Levels.margin_nested.after (before.map Row.width)
  have hwider : w < (Levels.margin.after (before.map Row.width)).innermost ↔
      ∃ v, StillOpen before v ∧ w < v := by
    simp only [← h.mem_after_iff]
    constructor
    · intro hlt
      refine ⟨_, (Levels.innermost_cases _).resolve_left ?_, hlt⟩
      omega
    · rintro ⟨v, hv, hlt⟩
      exact hlt.trans_le (hnested.le_innermost hv)
  rw [hnested.innermost_settle_lt_iff, hwider, h.mem_after_iff]
  rfl

end Settles

/-- Between rows of equal width stands no indent and no dedent, unless the first of them goes back
to a width of which no level is open. This can happen in lenient mode only. The first row closes
levels then and opens none, and the second one opens a level. -/
theorem scan_equal_widths {mode : Mode} {source : String} {ts : List Token}
    (h : scan mode source = .ok ts) :
    ∃ rows closing, LaidOut mode source ts rows closing ∧
      ∀ before q r after, rows = before ++ q :: r :: after → q.width = r.width →
        (¬ Ragged before q.width → r.opening = []) ∧
        (Ragged before q.width → mode = .lenient ∧ (∃ t ∈ q.opening, t.kind = .dedent) ∧
          ¬ q.Opens ∧ r.opening.map Token.kind = [.indent]) := by
  obtain ⟨rows, closing, hlaid, hsettles, -⟩ := scan_rows h
  refine ⟨rows, closing, hlaid, ?_⟩
  rintro before q r after rfl hwidth
  have hnested := Levels.margin_nested.after (before.map Row.width)
  obtain ⟨hopening, hmode, hnext, -, -⟩ := hsettles.drop
  rw [← hwidth, hnested.settle_again] at hnext
  rw [hsettles.ragged_iff]
  constructor
  · intro hlevel
    rw [if_neg hlevel] at hnext
    exact List.map_eq_nil_iff.mp hnext
  · intro hragged
    rw [if_pos hragged] at hnext
    have hlower := (hnested.innermost_settle_lt_iff.mp hragged).1
    refine ⟨?_, ?_, ?_, hnext⟩
    · cases mode with
      | lenient => rfl
      | strict => exact absurd (hmode rfl) hragged.ne
    · have hclosed := Levels.dedent_mem_settle hlower
      rw [← hopening] at hclosed
      exact List.mem_map.mp hclosed
    · rw [hsettles.opens_iff]
      exact hlower.not_gt

/-- The blank line between the second and the third row does not count. -/
theorem scan_equal_widths_block :
    let source := "a\n  b\n\n  c\n"
    let ts : List Token := [⟨.identifier, "a", some (.text "a"), ⟨1, 1⟩⟩,
      ⟨.newline, "\n", none, ⟨1, 2⟩⟩, .layout .indent ⟨2, 1⟩,
      ⟨.identifier, "b", some (.text "b"), ⟨2, 3⟩⟩, ⟨.newline, "\n", none, ⟨2, 4⟩⟩,
      ⟨.identifier, "c", some (.text "c"), ⟨4, 3⟩⟩, ⟨.newline, "\n", none, ⟨4, 4⟩⟩,
      .layout .dedent ⟨5, 1⟩, .layout .eof ⟨5, 1⟩]
    scan .strict source = .ok ts ∧
      ∃ rows closing, LaidOut .strict source ts rows closing ∧
        ∀ before q r after, rows = before ++ q :: r :: after → q.width = r.width →
          r.opening = [] := by
  intro source ts
  have hscan : scan .strict source = .ok ts := by decide +kernel
  obtain ⟨rows, closing, hlaid, hequal⟩ := scan_equal_widths hscan
  refine ⟨hscan, rows, closing, hlaid, fun before q r after hrows hwidth ↦ ?_⟩
  obtain ⟨hlevel, hragged⟩ := hequal before q r after hrows hwidth
  exact hlevel fun h ↦ nomatch (hragged h).1

/-- A line with nothing but a letter. -/
theorem Rows.letter {mode : Mode} {blanks rest : List Char} {c : Char} {p : Position}
    {rows : List Row} (opening : List Token) (hblanks : ∀ b ∈ blanks, Piece.isBlank b)
    (hpiece : Piece.at? c ('\n' :: rest) = some ⟨.word, [c], '\n' :: rest⟩)
    (hword : Keyword.ofWord? (String.ofList [c]) = none)
    (hopening : ∀ t ∈ opening, t = .layout .indent p.margin ∨ t = .layout .dedent p.margin)
    (h : Rows mode ⟨rest, ((p.pastAll blanks).past c).past '\n'⟩ rows) :
    Rows mode ⟨blanks ++ c :: '\n' :: rest, p⟩ (⟨indentWidth blanks, opening,
      [⟨.identifier, String.ofList [c], some (.text (String.ofList [c])), p.pastAll blanks⟩,
        ⟨.newline, "\n", none, (p.pastAll blanks).past c⟩]⟩ :: rows) := by
  have hlead : Piece.Leads c := by
    refine ⟨fun hblank ↦ ?_, ?_, ?_⟩
    · simp [Piece.at?, hblank, Piece.run] at hpiece
    · rintro rfl
      cases hpiece
    · rintro rfl
      cases hpiece
  let t : Token := ⟨.identifier, String.ofList [c], some (.text (String.ofList [c])),
    p.pastAll blanks⟩
  have htoken : Piece.token? mode (p.pastAll blanks) ⟨.word, [c], '\n' :: rest⟩ =
      .ok (some t) := by
    simp only [Piece.token?, hword, t]
  have hwritten : Cuts mode ⟨c :: '\n' :: rest, p.pastAll blanks⟩ ((some t).toList ++
      [⟨.newline, "\n", none, (p.pastAll blanks).past c⟩])
      ⟨rest, ((p.pastAll blanks).past c).past '\n'⟩ :=
    .piece rfl hpiece htoken hlead.2.1 (.lineBreak rfl)
  exact .row rfl hblanks hlead rfl hopening hwritten h

/-- The third line goes back to a width between two levels, and the fourth line, as wide as the
third one, opens a level. -/
theorem not_scan_equal_widths : ¬ ∀ (mode : Mode) (source : String) (ts : List Token)
    (rows : List Row) (closing : List Token), scan mode source = .ok ts →
      LaidOut mode source ts rows closing →
        ∀ before q r after, rows = before ++ q :: r :: after → q.width = r.width →
          r.opening = [] := by
  intro hclaim
  let ts : List Token := [⟨.identifier, "a", some (.text "a"), ⟨1, 1⟩⟩,
    ⟨.newline, "\n", none, ⟨1, 2⟩⟩, .layout .indent ⟨2, 1⟩,
    ⟨.identifier, "b", some (.text "b"), ⟨2, 5⟩⟩, ⟨.newline, "\n", none, ⟨2, 6⟩⟩,
    .layout .dedent ⟨3, 1⟩, ⟨.identifier, "c", some (.text "c"), ⟨3, 3⟩⟩,
    ⟨.newline, "\n", none, ⟨3, 4⟩⟩, .layout .indent ⟨4, 1⟩,
    ⟨.identifier, "d", some (.text "d"), ⟨4, 3⟩⟩, ⟨.newline, "\n", none, ⟨4, 4⟩⟩,
    .layout .dedent ⟨5, 1⟩, .layout .eof ⟨5, 1⟩]
  have hscan : scan .lenient "a\n    b\n  c\n  d\n" = .ok ts := by decide +kernel
  have hlaid : LaidOut .lenient "a\n    b\n  c\n  d\n" ts
      [⟨0, [], [⟨.identifier, "a", some (.text "a"), ⟨1, 1⟩⟩, ⟨.newline, "\n", none, ⟨1, 2⟩⟩]⟩,
        ⟨4, [.layout .indent ⟨2, 1⟩],
          [⟨.identifier, "b", some (.text "b"), ⟨2, 5⟩⟩, ⟨.newline, "\n", none, ⟨2, 6⟩⟩]⟩,
        ⟨2, [.layout .dedent ⟨3, 1⟩],
          [⟨.identifier, "c", some (.text "c"), ⟨3, 3⟩⟩, ⟨.newline, "\n", none, ⟨3, 4⟩⟩]⟩,
        ⟨2, [.layout .indent ⟨4, 1⟩],
          [⟨.identifier, "d", some (.text "d"), ⟨4, 3⟩⟩, ⟨.newline, "\n", none, ⟨4, 4⟩⟩]⟩]
      [.layout .dedent ⟨5, 1⟩] := by
    have hidle : Piece.Idle [] := ⟨[], [], rfl, List.forall_mem_nil _, .inl rfl⟩
    have hblanks (n : Nat) : ∀ b ∈ List.replicate n ' ', Piece.isBlank b := by
      intro b hb
      rw [List.eq_of_mem_replicate hb]
      rfl
    have hd : Rows .lenient ⟨[' ', ' '] ++ 'd' :: '\n' :: [], ⟨4, 1⟩⟩ _ :=
      .letter [.layout .indent ⟨4, 1⟩] (hblanks 2) (by decide +kernel) (by decide) (by decide)
        (.finish hidle)
    have hc : Rows .lenient ⟨[' ', ' '] ++ 'c' :: '\n' :: _, ⟨3, 1⟩⟩ _ :=
      .letter [.layout .dedent ⟨3, 1⟩] (hblanks 2) (by decide +kernel) (by decide) (by decide) hd
    have hb : Rows .lenient ⟨[' ', ' ', ' ', ' '] ++ 'b' :: '\n' :: _, ⟨2, 1⟩⟩ _ :=
      .letter [.layout .indent ⟨2, 1⟩] (hblanks 4) (by decide +kernel) (by decide) (by decide) hc
    have ha : Rows .lenient ⟨[] ++ 'a' :: '\n' :: _, ⟨1, 1⟩⟩ _ :=
      .letter [] (hblanks 0) (by decide +kernel) (by decide) (by decide) hb
    exact ⟨ha, ⟨5, 1⟩, by decide, rfl⟩
  have hempty := hclaim .lenient _ ts _ _ hscan hlaid [_, _] _ _ [] rfl rfl
  cases hempty

/-! What a row opens is closed by the first narrower row. -/

/-- The tokens have as many indents as dedents, and no dedent without an indent before it. -/
def Balanced (ts : List Token) : Prop :=
  StaysOpen 0 ts ∧ excess ts = 0

/-- Behind an indent and the tokens `inside`, the dedent that is paired with it is one of `us`. -/
def ClosedIn (inside us : List Token) : Prop :=
  ∃ front u back, us = front ++ u :: back ∧ u.kind = .dedent ∧ Balanced (inside ++ front)

/-- Of more dedents than there are levels to close, one closes the level around them. -/
theorem ClosedIn.of_dedents {inside us : List Token} (hus : ∀ u ∈ us, u.kind = .dedent)
    (hopen : StaysOpen 0 inside) (hlt : excess inside < us.length) : ClosedIn inside us := by
  obtain ⟨n, hn⟩ := Int.eq_ofNat_of_zero_le (a := excess inside) (by
    have hwhole := hopen inside List.prefix_rfl
    omega)
  have hn' : n < us.length := by omega
  have hfront : ∀ u ∈ us.take n, u.kind = .dedent := fun u hu ↦ hus u (List.mem_of_mem_take hu)
  have hlength : (us.take n).length = n := List.length_take_of_le hn'.le
  refine ⟨us.take n, us[n], us.drop (n + 1), ?_, hus _ (List.getElem_mem hn'), ?_, ?_⟩
  · rw [← List.drop_eq_getElem_cons hn', List.take_append_drop]
  · exact hopen.append (.of_dedents (by omega) hfront)
  · rw [excess_append, excess_of_dedents hfront]
    omega

theorem Cuts.rise_eq {mode : Mode} {r r' : Reader} {ts : List Token} (h : Cuts mode r ts r') :
    ∀ t ∈ ts, t.kind.rise = 0 := by
  induction h with
  | finish _ => exact List.forall_mem_nil _
  | lineBreak _ => simp [Kind.rise]
  | piece _ _ htoken _ _ ih =>
      refine List.forall_mem_append.mpr ⟨fun t ht ↦ ?_, ih⟩
      rcases Piece.token?_cases htoken with ⟨-, rfl⟩ | ⟨-, u, rfl, hu⟩ | ⟨-, u, rfl, hu⟩
      · cases ht
      · rw [List.mem_singleton.mp ht, hu]
        rfl
      · rw [List.mem_singleton.mp ht]
        exact hu.rise_eq

theorem Rows.rise_eq {mode : Mode} {r : Reader} {rows : List Row} (h : Rows mode r rows) :
    ∀ q ∈ rows, ∀ t ∈ q.written, t.kind.rise = 0 := by
  induction h with
  | finish _ => exact List.forall_mem_nil _
  | drop _ _ _ ih => exact ih
  | row _ _ _ _ _ hwritten _ ih => exact List.forall_mem_cons.mpr ⟨hwritten.rise_eq, ih⟩

namespace Levels

variable {l : Levels} {above below : List Nat} {v w : Nat}

/-- A line that is no narrower than a level changes only the levels above that one. -/
theorem settle_above (hl : l.widths = above ++ w :: below) (hv : w ≤ v) :
    ∃ above', (l.settle v).2.widths = above' ++ w :: below ∧
      ((l.settle v).1 = [.indent] ∨
        (∀ k ∈ (l.settle v).1, k = .dedent) ∧ (l.settle v).1.length ≤ above.length) := by
  by_cases hlt : l.innermost < v
  · rw [settle_of_lt hlt]
    exact ⟨v :: above, by rw [hl, List.cons_append], .inl rfl⟩
  · have hdrop : (above ++ w :: below).dropWhile (v < ·) =
        above.dropWhile (v < ·) ++ w :: below := by
      rw [List.dropWhile_append, List.dropWhile_cons_of_neg (by simpa using hv)]
      split
      · next hempty => rw [List.isEmpty_iff.mp hempty, List.nil_append]
      · rfl
    have htake : (above ++ w :: below).takeWhile (v < ·) = above.takeWhile (v < ·) := by
      rw [List.takeWhile_append, List.takeWhile_cons_of_neg (by simpa using hv)]
      split
      · next hall => rw [List.append_nil, List.Sublist.eq_of_length (List.takeWhile_sublist _) hall]
      · rfl
    rw [settle_of_le (Nat.not_lt.mp hlt), hl, hdrop, htake]
    refine ⟨_, rfl, .inr ⟨fun k hk ↦ ?_, ?_⟩⟩
    · obtain ⟨-, -, rfl⟩ := List.mem_map.mp hk
      rfl
    · rw [List.length_map]
      exact (List.takeWhile_sublist _).length_le

/-- A narrower line closes a level, and those above it before. -/
theorem Nested.settle_below (h : l.Nested) (hl : l.widths = above ++ w :: below) (hv : v < w) :
    (∀ k ∈ (l.settle v).1, k = .dedent) ∧ above.length < (l.settle v).1.length := by
  have hmem : w ∈ l.widths := by simp [hl]
  have hle : v ≤ l.innermost := hv.le.trans (h.le_innermost hmem)
  rw [settle_of_le hle]
  refine ⟨fun k hk ↦ ?_, ?_⟩
  · obtain ⟨-, -, rfl⟩ := List.mem_map.mp hk
    rfl
  · have hdecreasing := h.decreasing
    rw [hl, List.pairwise_append] at hdecreasing
    have hwider : ∀ u ∈ above ++ [w], decide (v < u) = true := by
      intro u hu
      rcases List.mem_append.mp hu with hu | hu
      · exact decide_eq_true (hv.trans (hdecreasing.2.2 u hu w List.mem_cons_self))
      · rw [List.mem_singleton.mp hu]
        exact decide_eq_true hv
    rw [hl, ← List.singleton_append, ← List.append_assoc, List.takeWhile_append_of_pos hwider]
    simp only [List.length_map, List.length_append, List.length_singleton]
    omega

end Levels

theorem excess_eq_sum_kinds (ts : List Token) :
    excess ts = ((ts.map Token.kind).map Kind.rise).sum := by
  rw [List.map_map]
  rfl

theorem excess_eq_zero {ts : List Token} (h : ∀ t ∈ ts, t.kind.rise = 0) : excess ts = 0 := by
  rw [excess, List.map_eq_replicate_iff.mpr h]
  simp

theorem Row.staysOpen {q : Row} {n : Nat} (hopening : q.opening.map Token.kind = [.indent] ∨
      (∀ t ∈ q.opening, t.kind = .dedent) ∧ q.opening.length ≤ n)
    (hwritten : ∀ t ∈ q.written, t.kind.rise = 0) : StaysOpen n q.tokens := by
  have hn := Int.natCast_nonneg n
  rcases hopening with hopening | ⟨hdedents, hle⟩
  · obtain ⟨t, hq, ht⟩ := List.map_eq_singleton_iff.mp hopening
    have hexcess : excess q.opening = 1 := by simp [hq, ht, Kind.rise]
    rw [tokens, hq]
    refine StaysOpen.append (.of_indent hn ht) (.of_forall_rise_eq ?_ hwritten)
    rw [← hq]
    omega
  · refine StaysOpen.append (.of_dedents (by omega) hdedents) (.of_forall_rise_eq ?_ hwritten)
    rw [excess_of_dedents hdedents]
    omega

namespace Settles

variable {mode : Mode} {l : Levels} {rows more : List Row} {q : Row} {above below : List Nat}
  {w : Nat}

/-- As long as no row is narrower than a level, that level stays open, and the tokens of the rows
open and close only levels above it. -/
theorem stays_above (h : Settles mode l (rows ++ more)) (hl : l.widths = above ++ w :: below)
    (hrows : ∀ q ∈ rows, w ≤ q.width) (hwritten : ∀ q ∈ rows, ∀ t ∈ q.written, t.kind.rise = 0) :
    ∃ above', (l.after (rows.map Row.width)).widths = above' ++ w :: below ∧
      StaysOpen above.length (rows.flatMap Row.tokens) ∧
      excess (rows.flatMap Row.tokens) + above.length = above'.length := by
  induction rows generalizing l above with
  | nil => exact ⟨above, hl, .nil (Int.natCast_nonneg _), Int.zero_add _⟩
  | cons q rows ih =>
      obtain ⟨hopening, -, hrest⟩ := h
      obtain ⟨hq, hrows⟩ := List.forall_mem_cons.mp hrows
      obtain ⟨hqwritten, hwritten⟩ := List.forall_mem_cons.mp hwritten
      obtain ⟨above', hl', hkinds⟩ := Levels.settle_above hl hq
      obtain ⟨above'', hafter, hopen, hexcess⟩ := ih hrest hl' hrows hwritten
      have hlength : excess q.tokens + above.length = above'.length := by
        have hsum := l.sum_rise_settle q.width
        rw [← hopening, ← excess_eq_sum_kinds, hl, hl'] at hsum
        simp only [List.length_append, List.length_cons] at hsum
        rw [Row.tokens, excess_append, excess_eq_zero hqwritten]
        omega
      refine ⟨above'', hafter, ?_, ?_⟩
      · rw [List.flatMap_cons]
        refine StaysOpen.append (Row.staysOpen ?_ hqwritten) (by rwa [Int.add_comm, hlength])
        rw [← hopening] at hkinds
        simpa using hkinds
      · rw [List.flatMap_cons, excess_append]
        omega

/-- Behind a row that opens a level, and as long as no row is narrower, one dedent more than there
are levels above closes that level. -/
theorem closes (h : Settles mode l (q :: (rows ++ more))) (hq : l.innermost < q.width)
    (hrows : ∀ p ∈ rows, q.width ≤ p.width)
    (hwritten : ∀ p ∈ q :: rows, ∀ t ∈ p.written, t.kind.rise = 0) :
    ∃ above, (l.after ((q :: rows).map Row.width)).widths = above ++ q.width :: l.widths ∧
      ∀ us : List Token, (∀ u ∈ us, u.kind = .dedent) → above.length < us.length →
        ClosedIn (q.written ++ rows.flatMap Row.tokens) us := by
  obtain ⟨hqwritten, hwritten⟩ := List.forall_mem_cons.mp hwritten
  have hlevels : (l.settle q.width).2.widths = [] ++ q.width :: l.widths := by
    rw [Levels.settle_of_lt hq, List.nil_append]
  obtain ⟨above, hafter, hopen, hexcess⟩ := h.2.2.stays_above hlevels hrows hwritten
  have hzero := excess_eq_zero hqwritten
  refine ⟨above, hafter, fun us hus hlt ↦ .of_dedents hus ?_ ?_⟩
  · refine StaysOpen.append (.of_forall_rise_eq le_rfl hqwritten) ?_
    rwa [hzero]
  · rw [excess_append, hzero]
    simp only [List.length_nil] at hexcess
    omega

end Settles

/-- A row opens a level exactly if it is wider than every level that a row before it opened and no
row since has been too narrow for. The indent is paired with a dedent in front of the first later
row that is narrower, or with one at the end if there is none. -/
theorem scan_levels {mode : Mode} {source : String} {ts : List Token}
    (h : scan mode source = .ok ts) :
    ∃ rows closing, LaidOut mode source ts rows closing ∧
      ∀ before q after, rows = before ++ q :: after →
        (q.Opens ↔ ∀ w, w = 0 ∨ StillOpen before w → w < q.width) ∧
        (q.Opens → (∃ t, q.opening = [t] ∧ t.kind = .indent) ∧
          (∀ between r rest, after = between ++ r :: rest → (∀ p ∈ between, q.width ≤ p.width) →
            r.width < q.width →
              ClosedIn (q.written ++ between.flatMap Row.tokens) r.opening) ∧
          ((∀ p ∈ after, q.width ≤ p.width) →
            ClosedIn (q.written ++ after.flatMap Row.tokens) closing)) := by
  obtain ⟨rows, closing, hlaid, hsettles, hclosing⟩ := scan_rows h
  refine ⟨rows, closing, hlaid, ?_⟩
  rintro before q after rfl
  have hnested := Levels.margin_nested.after (before.map Row.width)
  have hopens := hsettles.opens_iff
  have hrest := hsettles.drop
  have hwritten := hlaid.reads.rise_eq
  refine ⟨?_, fun hq ↦ ?_⟩
  · rw [hopens, hnested.innermost_lt_iff]
    simp only [hsettles.mem_after_iff]
  have hlt := hopens.mp hq
  refine ⟨?_, ?_, fun hafter ↦ ?_⟩
  · have hopening := hrest.1
    rw [Levels.settle_of_lt hlt] at hopening
    exact List.map_eq_singleton_iff.mp hopening
  · rintro between r rest rfl hbetween hr
    have hink : ∀ p ∈ q :: between, ∀ t ∈ p.written, t.kind.rise = 0 :=
      fun p hp ↦ hwritten p (by simp only [List.mem_append, List.mem_cons] at hp ⊢; tauto)
    obtain ⟨above, hlevels, hclosed⟩ := hrest.closes hlt hbetween hink
    rw [← List.cons_append] at hrest
    obtain ⟨hdedents, hlength⟩ := (hnested.after _).settle_below hlevels hr
    rw [← hrest.opening_eq] at hdedents hlength
    exact hclosed _ (by simpa using hdedents) (by simpa using hlength)
  · have hink : ∀ p ∈ q :: after, ∀ t ∈ p.written, t.kind.rise = 0 :=
      fun p hp ↦ hwritten p (List.mem_append_right before hp)
    rw [← List.append_nil after] at hrest
    obtain ⟨above, hlevels, hclosed⟩ := hrest.closes hlt hafter hink
    refine hclosed _ hlaid.dedents ?_
    rw [List.map_append, Levels.after_append] at hclosing
    have hlength := congrArg List.length hclosing
    rw [Levels.close, hlevels] at hlength
    simp only [List.length_map, List.length_append, List.length_cons] at hlength
    omega

/-- The fourth row goes back to a width between the levels of the second and the third row, and
closes only that of the third one. -/
theorem scan_levels_ragged :
    let source := "a\n  b\n      c\n    d\n"
    let ts : List Token := [⟨.identifier, "a", some (.text "a"), ⟨1, 1⟩⟩,
      ⟨.newline, "\n", none, ⟨1, 2⟩⟩, .layout .indent ⟨2, 1⟩,
      ⟨.identifier, "b", some (.text "b"), ⟨2, 3⟩⟩, ⟨.newline, "\n", none, ⟨2, 4⟩⟩,
      .layout .indent ⟨3, 1⟩, ⟨.identifier, "c", some (.text "c"), ⟨3, 7⟩⟩,
      ⟨.newline, "\n", none, ⟨3, 8⟩⟩, .layout .dedent ⟨4, 1⟩,
      ⟨.identifier, "d", some (.text "d"), ⟨4, 5⟩⟩, ⟨.newline, "\n", none, ⟨4, 6⟩⟩,
      .layout .dedent ⟨5, 1⟩, .layout .eof ⟨5, 1⟩]
    scan .lenient source = .ok ts ∧
      ∃ rows closing, LaidOut .lenient source ts rows closing ∧
        ∀ before q after, rows = before ++ q :: after → q.Opens →
          (∀ p ∈ after, q.width ≤ p.width) →
            ClosedIn (q.written ++ after.flatMap Row.tokens) closing := by
  intro source ts
  have hscan : scan .lenient source = .ok ts := by decide +kernel
  obtain ⟨rows, closing, hlaid, hrows⟩ := scan_levels hscan
  refine ⟨hscan, rows, closing, hlaid, fun before q after hsplit hopens hafter ↦ ?_⟩
  obtain ⟨-, hclosed⟩ := hrows before q after hsplit
  exact (hclosed hopens).2.2 hafter

end Offside
