import Offside.Proofs.FinalBreak
import Offside.Proofs.Grammar.Moved
import Offside.Proofs.Scan.Mode
import Offside.Proofs.Scan.Reread
import Offside.Proofs.Segmentation

/-!
# One source behind another

Behind a source that ends with a line break a scan stands at the start of a line. So what follows
is scanned as a source of its own, but for two things: its lines are counted on, and the levels
that are still open are closed by its first line instead of by the end of the source.
-/

namespace Offside

namespace Position

/-- The same column `k` lines further down. -/
def down (k : Nat) (p : Position) : Position :=
  ⟨p.line + .ofNat k, p.column⟩

/-- As long as there are fewer than `2 ^ 32` lines no line number wraps. -/
theorem toNat_line_down {k : Nat} {p : Position} (h : p.line.toNat + k < 2 ^ 32) :
    (p.down k).line.toNat = p.line.toNat + k := by
  have hsize : UInt32.size = 2 ^ 32 := rfl
  rw [down, UInt32.toNat_add, UInt32.toNat_ofNat_of_lt' (by omega), Nat.mod_eq_of_lt h]

theorem past_down (k : Nat) (p : Position) (c : Char) : (p.down k).past c = (p.past c).down k := by
  by_cases hc : c = '\n'
  · simp only [past, down, hc, if_true]
    rw [UInt32.add_assoc, UInt32.add_comm (.ofNat k), UInt32.add_assoc]
  · simp [past, down, hc]

theorem pastAll_down (k : Nat) (p : Position) (cs : List Char) :
    (p.down k).pastAll cs = (p.pastAll cs).down k := by
  induction cs generalizing p with
  | nil => rfl
  | cons c cs ih => rw [pastAll_cons, past_down, ih, pastAll_cons]

/-- Behind a text that is empty or ends with a line break a line starts. -/
theorem behind_eq_down {source : String} (h : source = "" ∨ ∃ c, source = c ++ "\n") :
    behind source.toList = start.down (breaks source.toList) := by
  have honLine : onLine source.toList = 0 := by
    rcases h with rfl | ⟨c, rfl⟩ <;> simp [onLine]
  rw [behind, honLine, down, UInt32.ofNat_add]
  rfl

end Position

/-- The tokens stand `k` lines further down. -/
abbrev Token.down (k : Nat) : Token → Token :=
  Token.mapPosition (Position.down k)

/-- If the string that it makes is closed, strict scanning makes the same token of a piece. -/
theorem Piece.token?_strict {mode : Mode} {position : Position} {c : Char} {cs : List Char}
    {p : Piece} {token : Option Token} (hpiece : at? c cs = some p)
    (htoken : p.token? mode position = .ok token)
    (hclosed : mode = .strict ∨ ∀ x ∈ token, x.IsClosed) :
    p.token? .strict position = .ok token := by
  rcases hclosed with rfl | hclosed
  · exact htoken
  · exact (token?_of_closed (closed_of_token? hpiece htoken hclosed) mode position).trans htoken

theorem Piece.token?_mapPosition (mode : Mode) (f : Position → Position) (position : Position)
    (p : Piece) : p.token? mode (f position) =
      (p.token? mode position).map (Option.map (Token.mapPosition f)) := by
  unfold token?
  dsimp only
  split <;> first | rfl | (split <;> rfl)

namespace Scan

variable {mode : Mode} {s t : Scan} {xs : List Token}

def down (k : Nat) (s : Scan) : Scan :=
  { s with reader := { s.reader with position := s.reader.position.down k } }

theorem down_past (k : Nat) (r : Reader) (l : Levels) (lineStart : Bool) (cs rest : List Char) :
    down k ⟨r.past cs rest, l, lineStart⟩ =
      ⟨(Reader.mk r.rest (r.position.down k)).past cs rest, l, lineStart⟩ := by
  simp only [Reader.past, Position.pastAll_down, down]

/-- A step does the same further down. -/
theorem Step.down (k : Nat) (h : Step mode s xs t) :
    Step mode (s.down k) (xs.map (Token.down k)) (t.down k) := by
  cases h with
  | @drop r l line rest hrest hidle =>
      rw [down_past]
      exact .drop (r := ⟨r.rest, r.position.down k⟩) hrest hidle
  | @dropLast r l hrest hidle =>
      rw [down_past]
      exact .dropLast (r := ⟨r.rest, r.position.down k⟩) hrest hidle
  | @settle r l blanks rest c hrest hblanks hlead hmode =>
      rw [down_past, List.map_map]
      exact .settle (r := ⟨r.rest, r.position.down k⟩) hrest hblanks hlead hmode
  | @piece r l c cs p token hrest hpiece htoken =>
      rw [down_past, ← Option.toList_map]
      refine .piece (r := ⟨r.rest, r.position.down k⟩) hrest hpiece ?_
      rw [Piece.token?_mapPosition, htoken]
      rfl

theorem Reaches.down (k : Nat) (h : Reaches mode s xs t) :
    Reaches mode (s.down k) (xs.map (Token.down k)) (t.down k) := by
  induction h with
  | refl s => exact .refl _
  | step hstep _ ih =>
      rw [List.map_append]
      exact .step (hstep.down k) ih

theorem dedents_down (k : Nat) (s : Scan) : (s.down k).dedents = s.dedents.map (Token.down k) := by
  rw [dedents, dedents, List.map_map]
  rfl

/-- Whatever strict scanning does, scanning does. -/
theorem Reaches.of_strict (h : Reaches .strict s xs t) : Reaches mode s xs t := by
  cases mode with
  | lenient => exact h.loosen
  | strict => exact h

/-- A scan reads what is in front of the text that it leaves. -/
theorem Reaches.exists_front (h : Reaches mode s xs t) : ∃ front,
    s.reader.rest = front ++ t.reader.rest ∧
      t.reader.position = s.reader.position.pastAll front := by
  induction h with
  | refl _ => exact ⟨[], rfl, rfl⟩
  | step hstep _ ih =>
      obtain ⟨front, hfront, hposition⟩ := hstep.exists_front
      obtain ⟨more, hmore, hposition'⟩ := ih
      refine ⟨front ++ more, ?_, ?_⟩
      · rw [hfront, hmore, List.append_assoc]
      · rw [hposition', hposition, Position.pastAll_append]

end Scan

/-- Where every string is closed, only the line break ends with a line break. -/
theorem Lexeme.Denotes.eq_newline {rest w : List Char} {k : Kind} {l : Option Literal}
    (h : Denotes .strict rest k (w ++ ['\n']) l) : k = .newline := by
  generalize hv : w ++ ['\n'] = v at h
  have hmem : '\n' ∈ v := hv ▸ List.mem_append_right w (List.mem_singleton_self _)
  have hword : ¬ IsWord v := by
    rintro ⟨c, cs, rfl, hc, hcs⟩
    rcases List.mem_cons.mp hmem with rfl | hmem
    · exact absurd hc (by decide +kernel)
    · exact absurd (hcs _ hmem) (by decide +kernel)
  cases h with
  | newline => rfl
  | integer h => exact absurd (h.2 _ hmem) (by decide)
  | float h _ => rcases h.digit_or_point hmem with h | h <;> exact absurd h (by decide)
  | string hquote _ =>
      obtain ⟨-, ⟨⟩⟩ := List.append_inj' hv rfl
      exact absurd hquote (by decide)
  | unfinished _ _ hmode _ _ _ => cases hmode
  | identifier h _ | keyword h _ _ => exact absurd h hword
  | mark m hm =>
      rw [← hm] at hmem
      revert hmem
      cases m <;> decide

namespace Scan

variable {mode : Mode} {s t : Scan} {xs : List Token}

/-- What is still to be read ends with a line break, and nothing is still to be read only at the
start of a line. -/
def EndsInBreak (s : Scan) : Prop :=
  s.reader.rest = [] ∧ s.lineStart = true ∨ ∃ cs, s.reader.rest = cs ++ ['\n']

theorem Step.endsInBreak (h : Step mode s xs t) (hclosed : mode = .strict ∨ ∀ x ∈ xs, x.IsClosed)
    (hs : EndsInBreak s) : EndsInBreak t := by
  obtain ⟨cs, hcs⟩ := hs.resolve_left fun hnil ↦ h.rest_ne_nil hnil.1
  obtain ⟨front, hfront, -⟩ := h.exists_front
  rcases List.eq_nil_or_concat t.reader.rest with hnil | ⟨ds, d, hds⟩
  · refine .inl ⟨hnil, ?_⟩
    cases h with
    | drop _ _ | dropLast _ _ => rfl
    | settle _ _ _ _ => cases hnil
    | @piece r l c cs' p token hrest hpiece htoken =>
        have hlexeme : p.lexeme = cs ++ ['\n'] := by
          have happ := Piece.at?_append hpiece
          rw [show p.rest = [] from hnil, List.append_nil] at happ
          rw [happ, ← hcs, ← hrest]
        have hmem : '\n' ∈ p.lexeme := by simp [hlexeme]
        refine decide_eq_true ?_
        cases token with
        | none =>
            rcases Piece.lexeme_of_token?_eq_none hpiece htoken with hblank | ⟨note, hnote, hout, -⟩
            · exact absurd (hblank _ hmem) (by decide)
            · rw [hnote] at hmem
              exact absurd ((List.mem_cons.mp hmem).resolve_left (by decide)) hout
        | some x =>
            have hstrict := Piece.token?_strict hpiece htoken
              (hclosed.imp_right fun hclosed y hy ↦ hclosed y (Option.mem_toList.mpr hy))
            have hdenotes := (Piece.denotes_of_at? hpiece hstrict).1
            rw [hlexeme] at hdenotes
            have hkind := hdenotes.eq_newline
            rcases Piece.token?_cases htoken with ⟨-, ⟨⟩⟩ | ⟨hshape, -⟩ | ⟨-, y, ⟨⟩, hy⟩
            · exact hshape
            · exact absurd hkind hy.ne_newline
  · rw [hcs, hds, List.concat_eq_append, ← List.append_assoc] at hfront
    obtain ⟨-, ⟨⟩⟩ := List.append_inj' hfront rfl
    exact .inr ⟨ds, hds.trans (List.concat_eq_append ..)⟩

theorem Reaches.endsInBreak (h : Reaches mode s xs t)
    (hclosed : mode = .strict ∨ ∀ x ∈ xs, x.IsClosed) (hs : EndsInBreak s) : EndsInBreak t := by
  induction h with
  | refl _ => exact hs
  | step hstep _ ih =>
      rw [List.forall_mem_append, or_and_left] at hclosed
      exact ih hclosed.2 (hstep.endsInBreak hclosed.1 hs)

/-- In front of more text the same step is made. -/
theorem Step.inFrontOf (h : Step mode s xs t) (hclosed : mode = .strict ∨ ∀ x ∈ xs, x.IsClosed)
    (hs : EndsInBreak s) (ds : List Char) : Step mode (s.followedBy ds) xs (t.followedBy ds) := by
  obtain ⟨cs, hcs⟩ := hs.resolve_left fun hnil ↦ h.rest_ne_nil hnil.1
  have hmem : '\n' ∈ s.reader.rest := by simp [hcs]
  rcases h.followedBy ds (.inl hmem) hclosed with hfirst | ⟨-, hidle, -⟩
  · exact hfirst
  · exact absurd hmem hidle.newline_notMem

/-- In front of more text the same steps are made. -/
theorem Reaches.inFrontOf (h : Reaches mode s xs t)
    (hclosed : mode = .strict ∨ ∀ x ∈ xs, x.IsClosed) (hs : EndsInBreak s) (ds : List Char) :
    Reaches mode (s.followedBy ds) xs (t.followedBy ds) := by
  induction h with
  | refl s => exact .refl _
  | step hstep _ ih =>
      rw [List.forall_mem_append, or_and_left] at hclosed
      exact .step (hstep.inFrontOf hclosed.1 hs ds)
        (ih hclosed.2 (hstep.endsInBreak hclosed.1 hs))

theorem start_append (a b : String) : start (a ++ b) = (start a).followedBy b.toList := by
  simp [Scan.followedBy, Scan.start, Reader.ofString, String.toList_append]

theorem endsInBreak_start {source : String} (h : source = "" ∨ ∃ c, source = c ++ "\n") :
    (start source).EndsInBreak := by
  rcases h with rfl | ⟨c, rfl⟩
  · exact .inl ⟨rfl, rfl⟩
  · exact .inr ⟨c.toList, String.toList_append⟩

section

variable {a : String} (h : Reaches mode (start a) xs t) (hend : t.reader.rest = [])
  (hclosed : mode = .strict ∨ ∀ x ∈ xs, x.IsClosed) (hbreak : a = "" ∨ ∃ c, a = c ++ "\n")

include h hend hclosed hbreak

theorem Reaches.lineStart_eq_true : t.lineStart = true := by
  rcases h.endsInBreak hclosed (endsInBreak_start hbreak) with hline | ⟨cs, hcs⟩
  · exact hline.2
  · simp [hend] at hcs

/-- Behind a source that ends with a line break a scan stands at the start of a line. -/
theorem Reaches.append (b : String) :
    Reaches mode (start (a ++ b)) xs ⟨⟨b.toList, .behind a.toList⟩, t.levels, true⟩ := by
  have hposition : t.reader.position = .behind a.toList := by
    obtain ⟨front, hfront, hposition⟩ := h.exists_front
    rw [hend, List.append_nil] at hfront
    rw [hposition, ← hfront]
    exact Position.pastAll_behind [] a.toList
  have hline := h.lineStart_eq_true hend hclosed hbreak
  have hseam := h.inFrontOf hclosed (endsInBreak_start hbreak) b.toList
  rw [← start_append, followedBy, hend, hline] at hseam
  rw [← hposition]
  exact hseam

end

theorem Step.widths_pos (h : Step mode s xs t) (hs : ∀ w ∈ s.levels.widths, 0 < w) :
    ∀ w ∈ t.levels.widths, 0 < w := by
  cases h with
  | drop _ _ | dropLast _ _ | piece _ _ _ => exact hs
  | @settle r l blanks _ _ _ _ _ _ =>
      by_cases hw : l.innermost < indentWidth blanks
      · rw [Levels.settle_of_lt hw]
        exact List.forall_mem_cons.mpr ⟨by omega, hs⟩
      · rw [Levels.settle_of_le (Nat.not_lt.mp hw)]
        exact fun w hw ↦ hs w ((List.dropWhile_suffix _).mem hw)

/-- A line without indentation closes every level. -/
theorem settle_zero {l : Levels} (hl : ∀ w ∈ l.widths, 0 < w) :
    l.settle 0 = (l.close, .margin) := by
  have hall : ∀ w ∈ l.widths, decide (0 < w) = true := fun w hw ↦ decide_eq_true (hl w hw)
  rw [Levels.settle_of_le (Nat.zero_le _), List.takeWhile_eq_self_iff.mpr hall,
    List.dropWhile_eq_nil_iff.mpr hall]
  rfl

/-- A scan that begins with levels still open closes them at its first line with tokens or at the
end, and does the same as without them otherwise, if its first line is not indented. -/
theorem Reaches.of_margin {r : Reader} {l : Levels} (hl : ∀ w ∈ l.widths, 0 < w)
    (h : Reaches mode ⟨r, .margin, true⟩ xs t) (hend : t.reader.rest = [])
    (hfirst : firstKind (xs ++ t.dedents) ≠ .indent) :
    ∃ ys u, ∃ place : Position, Reaches mode ⟨r, l, true⟩ ys u ∧ u.reader.rest = [] ∧
      ys ++ u.dedents = l.close.map (Token.layout · place) ++ (xs ++ t.dedents) := by
  generalize hs : (⟨r, .margin, true⟩ : Scan) = s at h
  induction h generalizing r with
  | refl s =>
      subst hs
      exact ⟨[], _, r.position, .refl _, hend, (List.append_nil _).symm⟩
  | @step s s' t xs ys hstep hreach ih =>
      cases hstep with
      | drop hrest hidle =>
          cases hs
          obtain ⟨zs, u, place, hreach', hu, hzs⟩ := ih hend hfirst rfl
          exact ⟨zs, u, place, .step (.drop hrest hidle) hreach', hu, hzs⟩
      | dropLast hrest hidle =>
          cases hs
          obtain ⟨zs, u, place, hreach', hu, hzs⟩ := ih hend hfirst rfl
          exact ⟨zs, u, place, .step (.dropLast hrest hidle) hreach', hu, hzs⟩
      | @settle _ _ blanks rest c hrest hblanks hlead hmode =>
          cases hs
          have hmargin : ∀ w ∈ Levels.margin.widths, 0 < w := List.forall_mem_nil _
          rcases Nat.eq_zero_or_pos (indentWidth blanks) with hw | hw
          · rw [hw, settle_zero hmargin] at hreach hfirst
            have hsettle : Step mode ⟨r, l, true⟩ (l.close.map (Token.layout · r.position.margin))
                ⟨r.past blanks (c :: rest), .margin, false⟩ := by
              have hmode' : mode = .strict →
                  (l.settle (indentWidth blanks)).2.innermost = indentWidth blanks := by
                rw [hw, settle_zero hl]
                exact fun _ ↦ rfl
              have hstep : Step mode ⟨r, l, true⟩ _ _ := .settle hrest hblanks hlead hmode'
              rwa [hw, settle_zero hl] at hstep
            refine ⟨_, t, r.position.margin, .step hsettle hreach, hend, ?_⟩
            rw [hw, settle_zero hmargin]
            exact List.append_assoc ..
          · rw [Levels.settle_of_lt hw] at hfirst
            exact absurd rfl hfirst
      | piece _ _ _ => cases hs

end Scan

/-- The last token, if there is one, ends a line. -/
def Sealed (ts : List Token) : Prop :=
  ∀ t ∈ ts.getLast?, t.kind = .newline ∨ t.kind = .dedent

theorem Sealed.nil : Sealed [] := by
  simp [Sealed]

theorem Sealed.append_dedents {ts us : List Token} (hts : Sealed ts)
    (hus : ∀ u ∈ us, u.kind = .dedent) : Sealed (ts ++ us) := by
  intro t ht
  rw [List.getLast?_append, Option.mem_def, Option.or_eq_some_iff] at ht
  rcases ht with ht | ⟨-, ht⟩
  · exact .inr (hus t (List.mem_of_getLast? ht))
  · exact hts t ht

theorem Scan.Step.sealed {mode : Mode} {s t : Scan} {ws xs : List Token} (h : Step mode s xs t)
    (hs : s.lineStart = true → Sealed ws) : t.lineStart = true → Sealed (ws ++ xs) := by
  cases h with
  | drop _ _ | dropLast _ _ => rwa [List.append_nil]
  | settle _ _ _ _ => exact nofun
  | @piece r l c cs p token hrest hpiece htoken =>
      intro hstart
      have hshape : p.shape = .lineBreak := of_decide_eq_true hstart
      rcases Piece.token?_cases htoken with ⟨hblank | hblank, -⟩ | ⟨-, x, rfl, hx⟩ | ⟨hne, -⟩
      · simp [hshape] at hblank
      · simp [hshape] at hblank
      · intro y hy
        obtain rfl : x = y := by simpa using hy
        exact .inl hx
      · exact absurd hshape hne

/-- No source begins with a token that ends a line. -/
theorem Scan.Step.firstKind_ne_newline {mode : Mode} {s t : Scan} {ws xs : List Token}
    (h : Step mode s xs t) (hs : InLine ws s ∧ firstKind ws ≠ .newline) :
    InLine (ws ++ xs) t ∧ firstKind (ws ++ xs) ≠ .newline := by
  refine ⟨h.inLine hs.1, ?_⟩
  cases ws with
  | cons w ws => exact hs.2
  | nil =>
      rw [List.nil_append]
      cases h with
      | drop _ _ | dropLast _ _ => exact hs.2
      | settle _ _ _ _ =>
          intro hfirst
          obtain ⟨t, ts, hts, hkind⟩ := exists_cons_of_firstKind hfirst nofun
          obtain ⟨k, hk, rfl⟩ := List.mem_map.mp (hts ▸ List.mem_cons_self : t ∈ _)
          rcases kind_of_mem_settle hk with rfl | rfl <;> cases hkind
      | @piece r l c cs p token hrest hpiece htoken =>
          rcases Piece.token?_cases htoken with ⟨-, rfl⟩ | ⟨hshape, -⟩ | ⟨-, x, rfl, hx⟩
          · exact nofun
          · rcases hs.1 with hstart | ⟨ys, x, hnil, -⟩ | ⟨d, ds, hd, hlead⟩
            · cases hstart
            · simp at hnil
            · obtain ⟨rfl, -⟩ := List.cons.inj (hrest.symm.trans hd)
              exact absurd hshape (Piece.shape_ne_lineBreak hlead.2.1 hpiece)
          · exact hx.ne_newline

theorem firstKind_content_scan_ne_newline {mode : Mode} {source : String} {ts : List Token}
    (h : scan mode source = .ok ts) : firstKind (content ts) ≠ .newline := by
  obtain ⟨xs, t, hreach, -, rfl⟩ := scan_eq_ok_iff.mp h
  have hinvariant : Scan.InLine ([] ++ xs) t ∧ firstKind ([] ++ xs) ≠ .newline :=
    hreach.invariant (I := fun ws s ↦ Scan.InLine ws s ∧ firstKind ws ≠ .newline)
      (fun _ _ _ _ ↦ Scan.Step.firstKind_ne_newline) ⟨.inl rfl, nofun⟩
  rw [Scan.content_append_finish hreach.ne_eof]
  cases xs with
  | cons x xs => exact hinvariant.2
  | nil =>
      intro hfirst
      obtain ⟨u, us, hus, hkind⟩ := exists_cons_of_firstKind hfirst nofun
      rw [List.nil_append] at hus
      have hdedent := Scan.kind_of_mem_dedents (hus ▸ List.mem_cons_self : u ∈ t.dedents)
      simp [hdedent] at hkind

/-- The tokens of two sources together are those of the first and then those of the second, counted
on. Only the dedents between them stand elsewhere. -/
theorem scan_append {mode : Mode} {a b : String} {ts us : List Token}
    (hend : a = "" ∨ ∃ c, a = c ++ "\n") (ha : scan .strict a = .ok ts)
    (hb : scan mode b = .ok us) (hfirst : firstKind (content us) ≠ .indent) :
    ∃ vs xs ds es, scan mode (a ++ b) = .ok vs ∧ content ts = xs ++ ds ∧
      content vs = xs ++ es ++ (content us).map (Token.down (Position.breaks a.toList)) ∧
      Closing ds es ∧ Sealed (xs ++ es) := by
  obtain ⟨xs, t, hreach, hrest, rfl⟩ := scan_eq_ok_iff.mp ha
  obtain ⟨ys, u, hreach', hrest', rfl⟩ := scan_eq_ok_iff.mp hb
  have hline := hreach.lineStart_eq_true hrest (.inl rfl) hend
  -- The seam is the start of the second source, further down and with the levels of the first.
  have hfollowed : Scan.Reaches mode (.start (a ++ b)) xs
      ((Scan.mk (.ofString b) t.levels true).down (Position.breaks a.toList)) := by
    have hseam := hreach.append hrest (.inl rfl) hend b
    rw [Position.behind_eq_down hend] at hseam
    exact hseam.of_strict
  have hinvariant : (∀ w ∈ t.levels.widths, 0 < w) ∧ (t.lineStart = true → Sealed ([] ++ xs)) :=
    hreach.invariant
      (I := fun ws s ↦ (∀ w ∈ s.levels.widths, 0 < w) ∧ (s.lineStart = true → Sealed ws))
      (fun _ _ _ _ h hs ↦ ⟨h.widths_pos hs.1, h.sealed hs.2⟩) ⟨List.forall_mem_nil _, fun _ ↦ .nil⟩
  rw [Scan.content_append_finish hreach'.ne_eof] at hfirst ⊢
  have hdown : ys.map (Token.down (Position.breaks a.toList)) ++
      (u.down (Position.breaks a.toList)).dedents =
        (ys ++ u.dedents).map (Token.down (Position.breaks a.toList)) := by
    rw [List.map_append, Scan.dedents_down]
  obtain ⟨zs, v, place, hrest'', hv, hzs⟩ :=
    (hreach'.down (Position.breaks a.toList)).of_margin hinvariant.1 hrest'
      (by rwa [hdown, firstKind_map_mapPosition])
  have hboth := hfollowed.trans hrest''
  let w : Scan := ⟨⟨[], place⟩, t.levels, true⟩
  refine ⟨_, xs, t.dedents, w.dedents, scan_eq_ok_iff.mpr ⟨_, v, hboth, hv, rfl⟩,
    Scan.content_append_finish hreach.ne_eof t, ?_, Scan.closing_dedents rfl,
    (hinvariant.2 hline).append_dedents fun _ ↦ Scan.kind_of_mem_dedents⟩
  rw [Scan.content_append_finish hboth.ne_eof, List.append_assoc, hzs, hdown, List.append_assoc]
  rfl

end Offside
