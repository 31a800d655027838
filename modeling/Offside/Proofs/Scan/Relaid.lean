import Offside.Proofs.Grammar.Moved
import Offside.Proofs.Scan.Reread
import Offside.Proofs.Scan.Rows

/-!
# Tokens laid out again

Tokens can be written as a text of their own: each line is indented by four blanks for every level
that is open, and one blank stands between two lexemes. A strict scan of this text gives the tokens
back, whatever widths, tabs, gaps and comments the source had that they come from.
-/

namespace Offside

/-- A token without its place. -/
abbrev Token.erase : Token → Token :=
  Token.mapPosition fun _ ↦ .unset

/-- The text of tokens with so many levels open in front of them. The flag tells whether the line
has a lexeme already. -/
def relaidFrom (depth : Nat) (inLine : Bool) : List Token → List Char
  | [] => []
  | t :: ts => match t.kind with
    | .indent => relaidFrom (depth + 1) inLine ts
    | .dedent => relaidFrom (depth - 1) inLine ts
    | .newline => '\n' :: relaidFrom depth false ts
    | .eof => relaidFrom depth inLine ts
    | _ => (if inLine then [' '] else List.replicate (4 * depth) ' ') ++
        (t.lexeme.toList ++ relaidFrom depth true ts)

def relaid (ts : List Token) : String :=
  String.ofList (relaidFrom 0 false ts)

section

variable {depth : Nat} {inLine : Bool} {t : Token} {ts us : List Token}

theorem relaidFrom_ink (ht : t.kind.IsInk) : relaidFrom depth inLine (t :: ts) =
    (if inLine then [' '] else List.replicate (4 * depth) ' ') ++
      (t.lexeme.toList ++ relaidFrom depth true ts) := by
  rw [relaidFrom]
  cases hkind : t.kind with
  | newline | indent | dedent | eof =>
      rw [hkind] at ht
      exact ht.elim
  | _ => rfl

theorem separates_relaidFrom (depth : Nat) (ts : List Token) :
    Separates (relaidFrom depth true ts) := by
  induction ts generalizing depth with
  | nil => exact .nil
  | cons t ts ih =>
      unfold relaidFrom
      split
      · exact ih _
      · exact ih _
      · exact .newline _
      · exact ih _
      · exact .blank _

theorem relaidFrom_closing (h : ∀ t ∈ ts, t.kind = .dedent ∨ t.kind = .eof) :
    relaidFrom depth inLine ts = [] := by
  induction ts generalizing depth with
  | nil => rfl
  | cons t ts ih =>
      obtain ⟨ht, hts⟩ := List.forall_mem_cons.mp h
      rcases ht with ht | ht <;> simp only [relaidFrom, ht, ih hts]

theorem relaidFrom_dedents (h : ∀ t ∈ us, t.kind = .dedent) :
    relaidFrom depth inLine (us ++ ts) = relaidFrom (depth - us.length) inLine ts := by
  induction us generalizing depth with
  | nil => rfl
  | cons u us ih =>
      obtain ⟨hu, hus⟩ := List.forall_mem_cons.mp h
      simp only [List.cons_append, relaidFrom, hu, ih hus, List.length_cons]
      congr 1
      omega

end

namespace Levels

/-- Levels that are four blanks apart. -/
def regular : Nat → Levels
  | 0 => .margin
  | n + 1 => ⟨4 * (n + 1) :: (regular n).widths⟩

theorem length_regular (n : Nat) : (regular n).widths.length = n := by
  induction n with
  | zero => rfl
  | succ n ih => rw [regular, List.length_cons, ih]

theorem innermost_regular (n : Nat) : (regular n).innermost = 4 * n := by
  cases n <;> rfl

theorem dropWhile_regular {m n : Nat} (h : m ≤ n) :
    (regular n).widths.dropWhile (4 * m < ·) = (regular m).widths := by
  induction n with
  | zero => rw [Nat.le_zero.mp h]; rfl
  | succ n ih =>
      rcases Nat.lt_or_eq_of_le h with hlt | rfl
      · rw [regular, List.dropWhile_cons_of_pos (by simp; omega), ih (by omega)]
      · rw [regular, List.dropWhile_cons_of_neg (by simp)]

/-- What a line does to the levels, by how many there are before and after. -/
theorem settle_eq_of_length (l : Levels) (w : Nat) :
    (l.settle w).1 = [.indent] ∧ (l.settle w).2.widths.length = l.widths.length + 1 ∨
      (l.settle w).1 = List.replicate (l.widths.length - (l.settle w).2.widths.length) .dedent ∧
        (l.settle w).2.widths.length ≤ l.widths.length := by
  by_cases hw : l.innermost < w
  · rw [settle_of_lt hw]
    exact .inl ⟨rfl, List.length_cons⟩
  · have hlength := congrArg List.length
      (List.takeWhile_append_dropWhile (p := (w < ·)) (l := l.widths))
    rw [List.length_append] at hlength
    rw [settle_of_le (Nat.not_lt.mp hw)]
    refine .inr ⟨?_, (List.dropWhile_sublist _).length_le⟩
    rw [List.map_const', ← hlength, Nat.add_sub_cancel]

/-- A line that is indented by four blanks for each level leaves exactly these levels open. -/
theorem settle_regular {n m : Nat} (h : m ≤ n + 1) :
    ((regular n).settle (4 * m)).2 = regular m := by
  rcases Nat.lt_or_eq_of_le h with hlt | rfl
  · rw [settle_of_le (by rw [innermost_regular]; omega), dropWhile_regular (by omega)]
  · rw [settle_of_lt (by rw [innermost_regular]; omega)]
    rfl

/-- On regular levels a line does what another one does on others, if it is indented by the number
of levels that the other one leaves open. -/
theorem settle_regular_eq (l : Levels) (w : Nat) :
    (regular l.widths.length).settle (4 * (l.settle w).2.widths.length) =
      ((l.settle w).1, regular (l.settle w).2.widths.length) := by
  have hline := l.settle_eq_of_length w
  generalize (l.settle w).2.widths.length = m at hline ⊢
  have hle : m ≤ l.widths.length + 1 := by
    rcases hline with ⟨-, hm⟩ | ⟨-, hm⟩ <;> omega
  have hregular := (regular l.widths.length).settle_eq_of_length (4 * m)
  rw [settle_regular hle, length_regular, length_regular] at hregular
  refine Prod.ext ?_ (settle_regular hle)
  rcases hline with ⟨hkinds, hm⟩ | ⟨hkinds, hm⟩ <;>
    rcases hregular with ⟨hkinds', hm'⟩ | ⟨hkinds', hm'⟩
  · exact hkinds'.trans hkinds.symm
  · omega
  · omega
  · exact hkinds'.trans hkinds.symm

end Levels

/-- What stands in front of the written tokens of a row is not written. -/
theorem relaidFrom_opening (l : Levels) (w : Nat) {opening : List Token}
    (hopening : opening.map Token.kind = (l.settle w).1) (ts : List Token) :
    relaidFrom l.widths.length false (opening ++ ts) =
      relaidFrom (l.settle w).2.widths.length false ts := by
  rcases l.settle_eq_of_length w with ⟨hkinds, hlength⟩ | ⟨hkinds, hlength⟩
  · rw [hkinds] at hopening
    obtain ⟨t, rfl, ht⟩ := List.map_eq_singleton_iff.mp hopening
    rw [hlength, List.singleton_append, relaidFrom, ht]
  · rw [hkinds] at hopening
    have hdedents : ∀ t ∈ opening, t.kind = .dedent := fun t ht ↦
      List.eq_of_mem_replicate (hopening ▸ List.mem_map_of_mem ht)
    have hcount := congrArg List.length hopening
    rw [List.length_map, List.length_replicate] at hcount
    rw [relaidFrom_dedents hdedents, hcount, Nat.sub_sub_self hlength]

theorem indentWidth_replicate (n : Nat) : indentWidth (List.replicate n ' ') = n := by
  induction n with
  | zero => rfl
  | succ n ih =>
      rw [List.replicate_succ, indentWidth_cons, ih]
      exact Nat.add_comm 1 n

/-- A token with a text that a strict scan takes for it. -/
def Token.Legible (t : Token) : Prop :=
  t.kind.IsInk ∧ ∃ before, Lexeme.Denotes .strict before t.kind t.lexeme.toList t.literal

/-- What a row has behind its opening: written tokens, and the line break if a line follows. -/
theorem Cuts.legible {mode : Mode} {r r' : Reader} {ts : List Token} (h : Cuts mode r ts r')
    (hclosed : ∀ t ∈ ts, t.IsClosed) :
    ∃ inks, (∀ t ∈ inks, t.Legible) ∧
      (ts = inks ∧ r'.rest = [] ∨ ∃ p, ts = inks ++ [⟨.newline, "\n", none, p⟩]) := by
  induction h with
  | finish hrest => exact ⟨[], List.forall_mem_nil _, .inl ⟨rfl, hrest⟩⟩
  | lineBreak _ => exact ⟨[], List.forall_mem_nil _, .inr ⟨_, rfl⟩⟩
  | @piece r r' c cs p token ts hrest hpiece htoken hc h ih =>
      obtain ⟨hhere, hlater⟩ := List.forall_mem_append.mp hclosed
      obtain ⟨inks, hinks, hend⟩ := ih hlater
      rcases Piece.token?_cases htoken with ⟨-, rfl⟩ | ⟨hshape, -⟩ | ⟨-, t, rfl, ht⟩
      · exact ⟨inks, hinks, hend⟩
      · exact absurd hshape (Piece.shape_ne_lineBreak hc hpiece)
      · have hshape := Piece.closed_of_token? hpiece htoken fun u hu ↦
          hhere u (Option.mem_toList.mpr hu)
        have hstrict := (Piece.token?_of_closed hshape mode r.position).trans htoken
        have hdenotes := (Piece.denotes_of_at? hpiece hstrict).1
        have hlexeme : t.lexeme.toList = p.lexeme := by
          rw [(Piece.token?_lexeme hstrict).1, String.toList_ofList]
        refine ⟨t :: inks, List.forall_mem_cons.mpr ⟨⟨ht, p.rest, ?_⟩, hinks⟩, ?_⟩
        · rwa [hlexeme]
        · rcases hend with ⟨rfl, hend⟩ | ⟨q, rfl⟩
          · exact .inl ⟨rfl, hend⟩
          · exact .inr ⟨q, rfl⟩

/-- A row begins with a written token. -/
theorem Cuts.exists_legible {mode : Mode} {r r' : Reader} {c : Char} {cs : List Char}
    {ts : List Token} (h : Cuts mode r ts r') (hrest : r.rest = c :: cs) (hlead : Piece.Leads c)
    (hclosed : ∀ t ∈ ts, t.IsClosed) :
    ∃ t inks, t.Legible ∧ (∀ u ∈ inks, u.Legible) ∧ (ts = t :: inks ∧ r'.rest = [] ∨
      ∃ p, ts = t :: (inks ++ [⟨.newline, "\n", none, p⟩])) := by
  obtain ⟨t, us, hfirst, ht⟩ := h.exists_ink hrest hlead
  obtain ⟨inks, hinks, hend⟩ := h.legible hclosed
  cases inks with
  | nil =>
      rcases hend with ⟨rfl, -⟩ | ⟨p, rfl⟩
      · cases hfirst
      · obtain ⟨rfl, -⟩ := List.cons.inj hfirst
        exact ht.elim
  | cons u inks =>
      obtain ⟨hu, hinks⟩ := List.forall_mem_cons.mp hinks
      exact ⟨u, inks, hu, hinks, hend⟩

namespace Scan

variable {rest : List Char} {t : Token} {ts : List Token}

/-- A legible token is taken off the text. -/
theorem Step.legible (ht : t.Legible) (hrest : Separates rest) (l : Levels) (p : Position) :
    ∃ u q, Step .strict ⟨⟨t.lexeme.toList ++ rest, p⟩, l, false⟩ [u] ⟨⟨rest, q⟩, l, false⟩ ∧
      u.erase = t.erase := by
  obtain ⟨hink, before, hdenotes⟩ := ht
  obtain ⟨c, cs, shape, hw, hlead, hcut, htoken⟩ := Piece.at?_of_denotes hdenotes hink hrest
  have hshape : decide (shape = .lineBreak) = false :=
    decide_eq_false (Piece.shape_ne_lineBreak hlead.2.1 hcut)
  have hstep := Step.piece (r := ⟨c :: (cs ++ rest), p⟩) (l := l) rfl hcut (htoken p)
  rw [hshape] at hstep
  refine ⟨⟨t.kind, String.ofList t.lexeme.toList, t.literal, p⟩, p.pastAll t.lexeme.toList, ?_, ?_⟩
  · rw [show t.lexeme.toList ++ rest = c :: (cs ++ rest) by rw [hw, List.cons_append]]
    exact hstep
  · rw [String.ofList_toList]
    rfl

/-- So is the blank in front of it. -/
theorem Step.blank (ht : t.Legible) (rest : List Char) (l : Levels) (p : Position) :
    Step .strict ⟨⟨' ' :: (t.lexeme.toList ++ rest), p⟩, l, false⟩ []
      ⟨⟨t.lexeme.toList ++ rest, p.past ' '⟩, l, false⟩ := by
  obtain ⟨hink, before, hdenotes⟩ := ht
  obtain ⟨c, cs, shape, hw, hlead, -, -⟩ := Piece.at?_of_denotes hdenotes hink .nil
  have hcut : Piece.at? ' ' (c :: (cs ++ rest)) = some ⟨.blank, [' '], c :: (cs ++ rest)⟩ := by
    simp [Piece.at?, Piece.run, hlead.1, show Piece.isBlank ' ' = true from rfl]
  rw [hw]
  exact .piece (r := ⟨' ' :: c :: (cs ++ rest), p⟩) rfl hcut rfl

theorem Step.newline (mode : Mode) (cs : List Char) (l : Levels) (p : Position) :
    Step mode ⟨⟨'\n' :: cs, p⟩, l, false⟩ [⟨.newline, "\n", none, p⟩]
      ⟨⟨cs, p.past '\n'⟩, l, true⟩ := by
  have hcut : Piece.at? '\n' cs = some ⟨.lineBreak, ['\n'], cs⟩ := rfl
  have htoken : Piece.token? mode p ⟨.lineBreak, ['\n'], cs⟩ =
      .ok (some ⟨.newline, "\n", none, p⟩) := rfl
  exact .piece (r := ⟨'\n' :: cs, p⟩) rfl hcut htoken

/-- The tokens of a line behind its first one are taken off, with the blanks between them. -/
theorem Reaches.legible (hts : ∀ t ∈ ts, t.Legible) (depth : Nat) (after : List Token)
    (l : Levels) (p : Position) :
    ∃ us q, Reaches .strict ⟨⟨relaidFrom depth true (ts ++ after), p⟩, l, false⟩ us
        ⟨⟨relaidFrom depth true after, q⟩, l, false⟩ ∧
      us.map Token.erase = ts.map Token.erase := by
  induction ts generalizing p with
  | nil => exact ⟨[], p, .refl _, rfl⟩
  | cons t ts ih =>
      obtain ⟨ht, hts⟩ := List.forall_mem_cons.mp hts
      rw [List.cons_append, relaidFrom_ink ht.1]
      have hblank := Step.blank ht (relaidFrom depth true (ts ++ after)) l p
      obtain ⟨u, q, hstep, hu⟩ :=
        Step.legible ht (separates_relaidFrom depth (ts ++ after)) l (p.past ' ')
      obtain ⟨us, q', hreach, hus⟩ := ih hts q
      exact ⟨[] ++ ([u] ++ us), q', .step hblank (.step hstep hreach), by simp [hu, hus]⟩

/-- The blanks in front of a line settle the levels. -/
theorem Step.indented (ht : t.Legible) (l : Levels) (w : Nat) (rest : List Char) (p : Position) :
    ∃ us q, Step .strict
        ⟨⟨List.replicate (4 * (l.settle w).2.widths.length) ' ' ++ (t.lexeme.toList ++ rest), p⟩,
          .regular l.widths.length, true⟩ us
        ⟨⟨t.lexeme.toList ++ rest, q⟩, .regular (l.settle w).2.widths.length, false⟩ ∧
      us.map Token.erase = (l.settle w).1.map (Token.layout · .unset) := by
  obtain ⟨hink, before, hdenotes⟩ := ht
  obtain ⟨c, cs, shape, hw, hlead, -, -⟩ := Piece.at?_of_denotes hdenotes hink .nil
  have hsettle := l.settle_regular_eq w
  generalize (l.settle w).2.widths.length = n at hsettle ⊢
  let blanks := List.replicate (4 * n) ' '
  have hwidth : indentWidth blanks = 4 * n := indentWidth_replicate (4 * n)
  have hblanks : ∀ b ∈ blanks, Piece.isBlank b := by
    intro b hb
    rw [List.eq_of_mem_replicate hb]
    rfl
  have hmode : Mode.strict = .strict →
      ((Levels.regular l.widths.length).settle (indentWidth blanks)).2.innermost =
        indentWidth blanks := by
    rw [hwidth, hsettle]
    exact fun _ ↦ Levels.innermost_regular n
  have hstep := Step.settle (r := ⟨blanks ++ c :: (cs ++ rest), p⟩) rfl hblanks hlead hmode
  rw [hwidth, hsettle] at hstep
  rw [hw]
  refine ⟨_, _, hstep, ?_⟩
  rw [List.map_map]
  rfl

/-- A row is taken off up to its line break. -/
theorem Reaches.row (l : Levels) (w : Nat) (ht : t.Legible) (hts : ∀ t ∈ ts, t.Legible)
    (after : List Token) (p : Position) :
    ∃ us q, Reaches .strict
        ⟨⟨relaidFrom (l.settle w).2.widths.length false (t :: (ts ++ after)), p⟩,
          .regular l.widths.length, true⟩ us
        ⟨⟨relaidFrom (l.settle w).2.widths.length true after, q⟩,
          .regular (l.settle w).2.widths.length, false⟩ ∧
      us.map Token.erase =
        (l.settle w).1.map (Token.layout · .unset) ++ (t :: ts).map Token.erase := by
  let rest := relaidFrom (l.settle w).2.widths.length true (ts ++ after)
  obtain ⟨us, q, hopening, hus⟩ := Step.indented ht l w rest p
  obtain ⟨u, q', hfirst, hu⟩ := Step.legible ht (separates_relaidFrom _ (ts ++ after))
    (.regular (l.settle w).2.widths.length) q
  obtain ⟨vs, q'', hreach, hvs⟩ :=
    Reaches.legible hts _ after (.regular (l.settle w).2.widths.length) q'
  rw [relaidFrom_ink ht.1]
  exact ⟨_, q'', .step hopening (.step hfirst hreach), by simp [hus, hu, hvs]⟩

end Scan

theorem map_erase_opening {opening : List Token} {p : Position}
    (h : ∀ t ∈ opening, t = .layout .indent p ∨ t = .layout .dedent p) :
    opening.map Token.erase = (opening.map Token.kind).map (Token.layout · .unset) := by
  rw [List.map_map]
  refine List.map_congr_left fun t ht ↦ ?_
  rcases h t ht with rfl | rfl <;> rfl

/-- Row by row the text is scanned back to the tokens that it was made of. -/
theorem Rows.rescan {mode : Mode} {r : Reader} {rows : List Row} {l : Levels} {tail : List Token}
    (h : Rows mode r rows) (hsettles : Settles mode l rows)
    (hclosed : ∀ q ∈ rows, ∀ t ∈ q.written, t.IsClosed)
    (htail : ∀ t ∈ tail, t.kind = .dedent ∨ t.kind = .eof) (p : Position) :
    ∃ us t, Scan.Reaches .strict
        ⟨⟨relaidFrom l.widths.length false (rows.flatMap Row.tokens ++ tail), p⟩,
          .regular l.widths.length, true⟩ us t ∧ t.reader.rest = [] ∧
      t.levels = .regular (l.after (rows.map Row.width)).widths.length ∧
      us.map Token.erase = (rows.flatMap Row.tokens).map Token.erase := by
  induction h generalizing l p with
  | finish _ => exact ⟨[], _, .refl _, relaidFrom_closing htail, rfl, rfl⟩
  | drop _ _ _ ih => exact ih hsettles hclosed p
  | @row r r' blanks rest c q rows hrest hblanks hlead hwidth hopening hwritten hrows ih =>
      obtain ⟨hkinds, -, hsettles⟩ := hsettles
      obtain ⟨hq, hclosed⟩ := List.forall_mem_cons.mp hclosed
      obtain ⟨t, inks, ht, hinks, hend⟩ := hwritten.exists_legible rfl hlead hq
      let more := rows.flatMap Row.tokens ++ tail
      have htext : relaidFrom l.widths.length false ((q :: rows).flatMap Row.tokens ++ tail) =
          relaidFrom (l.settle q.width).2.widths.length false (q.written ++ more) := by
        rw [List.flatMap_cons, Row.tokens, List.append_assoc, List.append_assoc,
          relaidFrom_opening l q.width hkinds]
      have herase : ((q :: rows).flatMap Row.tokens).map Token.erase =
          (l.settle q.width).1.map (Token.layout · .unset) ++ q.written.map Token.erase ++
            (rows.flatMap Row.tokens).map Token.erase := by
        rw [List.flatMap_cons, Row.tokens, List.map_append, List.map_append,
          map_erase_opening hopening, hkinds]
      rw [htext, herase]
      rcases hend with ⟨hq, hend⟩ | ⟨place, hq⟩
      · obtain rfl : rows = [] := by
          cases hrows with
          | finish _ => rfl
          | drop hrest _ _ | row hrest _ _ _ _ _ _ => simp [hend] at hrest
        obtain ⟨us, place, hreach, hus⟩ := Scan.Reaches.row l q.width ht hinks tail p
        rw [relaidFrom_closing htail] at hreach
        exact ⟨us, _, by rwa [hq], rfl, rfl, by simp [hus, hq]⟩
      · let newline : Token := ⟨.newline, "\n", none, place⟩
        obtain ⟨us, p', hreach, hus⟩ := Scan.Reaches.row l q.width ht hinks (newline :: more) p
        obtain ⟨vs, t, hrest, hend, hlevels, hvs⟩ := ih hsettles hclosed (p'.past '\n')
        have hall := hreach.trans (.step (.newline _ _ _ p') hrest)
        rw [hq, List.cons_append, List.append_assoc]
        exact ⟨_, t, hall, hend, hlevels, by simp [hus, hvs, Token.mapPosition]⟩

/-- The text that tokens are laid out to is scanned back to them, up to the positions. -/
theorem scan_relaid {mode : Mode} {source : String} {ts : List Token}
    (h : scan mode source = .ok ts) (hclosed : ∀ t ∈ ts, t.IsClosed) :
    ∃ us, scan .strict (relaid ts) = .ok us ∧ us.map Token.erase = ts.map Token.erase := by
  obtain ⟨rows, closing, ⟨hrows, p, hclosing, rfl⟩, hsettles, hlevels⟩ := scan_rows h
  have htail : ∀ t ∈ closing ++ [Token.layout .eof p], t.kind = .dedent ∨ t.kind = .eof := by
    intro t ht
    rcases List.mem_append.mp ht with ht | ht
    · rw [hclosing t ht]
      exact .inl rfl
    · rw [List.mem_singleton.mp ht]
      exact .inr rfl
  have hwritten : ∀ q ∈ rows, ∀ t ∈ q.written, t.IsClosed := fun q hq t ht ↦
    hclosed t (List.mem_append_left _ (List.mem_flatMap.mpr
      ⟨q, hq, List.mem_append_right _ ht⟩))
  obtain ⟨us, t, hreach, hend, hlevels', hus⟩ := hrows.rescan hsettles hwritten htail .start
  have hstart : Scan.start (relaid (rows.flatMap Row.tokens ++ (closing ++ [.layout .eof p]))) =
      ⟨⟨relaidFrom Levels.margin.widths.length false
          (rows.flatMap Row.tokens ++ (closing ++ [.layout .eof p])), .start⟩,
        .regular Levels.margin.widths.length, true⟩ := by
    rw [Scan.start, relaid, Reader.ofString, String.toList_ofList]
    rfl
  rw [← hstart] at hreach
  refine ⟨us ++ t.finish, scan_eq_ok_iff.mpr ⟨us, t, hreach, hend, rfl⟩, ?_⟩
  have hdedents : t.dedents.map Token.erase = closing.map Token.erase := by
    have hcount := congrArg List.length hlevels
    rw [List.length_map, Levels.close, List.length_map] at hcount
    rw [List.map_congr_left fun u hu ↦ congrArg Token.erase (hclosing u hu), List.map_const',
      Scan.dedents, Levels.close, hlevels', List.map_map, List.map_map, hcount]
    exact (List.map_const' ..).trans (congrArg (List.replicate · _) (Levels.length_regular _))
  simp only [Scan.finish_eq, List.map_append, hus, hdedents]
  rfl

end Offside
