import Offside.Proofs.LexicalFault
import Offside.Proofs.Parse.Track
import Offside.Proofs.Scan.Alike

/-!
# Lines without tokens

A line that holds nothing but blanks and perhaps a comment can be put between any two lines of a
source. It opens and closes no levels, so the scan finds the same before it and, one line further
down, the same behind it. What a strict scan refuses in front of the line it refuses with it and
without it.
-/

namespace Offside

namespace Position

/-- The position is that of a character of `text`, which stands behind `before`. -/
def IsIn (before text : List Char) (p : Position) : Prop :=
  ∃ front c cs, text = front ++ c :: cs ∧ p = behind (before ++ front)

theorem IsIn.prepend {before front text : List Char} {p : Position}
    (h : p.IsIn (before ++ front) text) : p.IsIn before (front ++ text) := by
  obtain ⟨more, c, cs, rfl, rfl⟩ := h
  exact ⟨front ++ more, c, cs, by rw [List.append_assoc], by rw [List.append_assoc]⟩

/-- A line more in front of it moves a place one line down. -/
theorem behind_append_line {line : List Char} (hline : '\n' ∉ line) {source : String}
    (hbreak : source = "" ∨ ∃ c, source = c ++ "\n") :
    behind (source.toList ++ (line ++ ['\n'])) = (behind source.toList).down 1 := by
  have hmargin : (behind source.toList).column = 1 := by
    rw [behind_eq_down hbreak]
    rfl
  rw [← List.append_assoc, behind_concat, past, if_pos rfl, down, hmargin]
  simp [behind, breaks_append hline, UInt32.ofNat_add]

end Position

/-- What becomes of the outcome for `a` and `b` together when a line is put between them: what
stands in `a` stays where it is, and what stands behind it comes one line further down. -/
inductive Shifted (a b : List Char) :
    Except Fault (List Token) → Except Fault (List Token) → Prop
  | tokens {xs ys : List Token} (hxs : ∀ x ∈ xs, x.position.IsIn [] a)
      (hys : ∀ y ∈ ys, y.position.IsIn a b ∨ y.position = .behind (a ++ b)) :
      Shifted a b (.ok (xs ++ ys)) (.ok (xs ++ ys.map (Token.down 1)))
  | faultBefore {e : Fault} (h : e.position.IsIn [] a) : Shifted a b (.error e) (.error e)
  | faultBehind {e : Fault} (h : e.position.IsIn a b) :
      Shifted a b (.error e) (.error (e.move (.down 1)))

namespace Scan

variable {mode : Mode} {s t : Scan} {xs found : List Token} {before : List Char}

section Down

variable {k : Nat} {e : Fault}

theorem finish_down (k : Nat) (s : Scan) : (s.down k).finish = s.finish.map (Token.down k) := by
  rw [finish_eq, finish_eq, List.map_append, dedents_down]
  rfl

theorem Fails.down (h : Fails mode s e) : Fails mode (s.down k) (e.move (.down k)) := by
  cases h with
  | @foreign r _ _ _ hrest hpiece =>
      exact .foreign (r := ⟨r.rest, r.position.down k⟩) hrest hpiece
  | @piece r _ _ _ _ _ hrest hpiece htoken =>
      refine .piece (r := ⟨r.rest, r.position.down k⟩) hrest hpiece ?_
      rw [Piece.token?_mapPosition, htoken]
      rfl
  | @ragged r _ _ _ _ hrest hblanks hlead hmode hwidth =>
      exact .ragged (r := ⟨r.rest, r.position.down k⟩) hrest hblanks hlead hmode hwidth

theorem forall₂_down_iff {k : Nat} {xs ys : List Token} :
    List.Forall₂ (fun x y ↦ x.down k = y) xs ys ↔ xs.map (Token.down k) = ys := by
  rw [← List.forall₂_map_left_iff, List.forall₂_eq_eq_eq]

theorem alike_down (k : Nat) (s : Scan) :
    Alike mode (fun x y ↦ x.down k = y) (fun e f ↦ e.move (.down k) = f)
      (fun s t ↦ s.down k = t) s (s.down k) := by
  rcases s.next_cases mode with hrest | ⟨xs, t, hstep⟩ | ⟨e, hfails⟩
  · exact .ends hrest hrest (forall₂_down_iff.mpr (finish_down k s).symm)
  · exact .steps hstep (hstep.down k) (forall₂_down_iff.mpr rfl) rfl
  · exact .fails hfails hfails.down rfl

/-- A scan does the same further down. -/
theorem run_down (k : Nat) (s : Scan) :
    (∃ ts, s.run mode [] = .ok ts ∧ (s.down k).run mode [] = .ok (ts.map (Token.down k))) ∨
      ∃ e, s.run mode [] = .error e ∧ (s.down k).run mode [] = .error (e.move (.down k)) := by
  have hmatching : Matching (fun x y ↦ x.down k = y) (fun e f ↦ e.move (.down k) = f)
      (s.run mode []) ((s.down k).run mode []) := by
    refine run_matching (R := fun s t ↦ s.down k = t) ?_ rfl .nil
    rintro s _ rfl
    exact alike_down k s
  generalize s.run mode [] = x at hmatching ⊢
  generalize (s.down k).run mode [] = y at hmatching ⊢
  cases hmatching with
  | ok h => exact .inl ⟨_, rfl, forall₂_down_iff.mp h ▸ rfl⟩
  | error h => exact .inr ⟨_, rfl, h ▸ rfl⟩

end Down

section Place

theorem Step.position_eq (h : Step mode s xs t) (hs : AtMargin s) :
    ∀ x ∈ xs, x.position = s.reader.position := by
  intro x hx
  have hne := h.rest_ne_nil
  cases h with
  | drop _ _ | dropLast _ _ => cases hx
  | settle _ _ _ _ =>
      obtain ⟨k, -, rfl⟩ := List.mem_map.mp hx
      exact hs.margin_eq rfl hne
  | piece _ _ htoken =>
      obtain rfl := Option.mem_toList.mp hx
      exact (Piece.token?_lexeme htoken).2

theorem Fails.position_eq {e : Fault} (h : Fails mode s e) (hs : AtMargin s) :
    e.position = s.reader.position := by
  have hne := h.rest_ne_nil
  cases h with
  | foreign _ _ | piece _ _ _ => rfl
  | ragged _ _ _ _ _ => exact hs.margin_eq rfl hne

/-- The tokens that a scan finds on its way stand at characters of what it reads. Whatever holds of
the tokens of a step, and of the character in front of which it is made, holds of them there. -/
theorem Reaches.exists_place {P : Token → Char → Prop}
    (hP : ∀ ⦃s xs t⦄, Step mode s xs t → ∃ c cs, s.reader.rest = c :: cs ∧ ∀ x ∈ xs, P x c)
    (h : Reaches mode s xs t) (hs : AtMargin s) (hposition : s.reader.position = .behind before) :
    ∀ x ∈ xs, ∃ front c cs, s.reader.rest = front ++ c :: cs ∧
      x.position = .behind (before ++ front) ∧ P x c := by
  induction h generalizing before with
  | refl _ => exact List.forall_mem_nil _
  | step hstep _ ih =>
      obtain ⟨front, hfront, hposition'⟩ := hstep.exists_front
      rw [hposition, Position.pastAll_behind] at hposition'
      refine List.forall_mem_append.mpr ⟨fun x hx ↦ ?_, fun y hy ↦ ?_⟩
      · obtain ⟨c, cs, hrest, hc⟩ := hP hstep
        refine ⟨[], c, cs, hrest, ?_, hc x hx⟩
        rw [hstep.position_eq hs x hx, hposition, List.append_nil]
      · obtain ⟨more, c, cs, hrest, hy, hc⟩ := ih hstep.atMargin hposition' y hy
        exact ⟨front ++ more, c, cs, by rw [hfront, hrest, List.append_assoc],
          by rw [hy, List.append_assoc], hc⟩

theorem Reaches.isIn (h : Reaches mode s xs t) (hs : AtMargin s)
    (hposition : s.reader.position = .behind before) :
    ∀ x ∈ xs, x.position.IsIn before s.reader.rest := by
  intro x hx
  have hP {s xs t} (hstep : Step mode s xs t) :
      ∃ c cs, s.reader.rest = c :: cs ∧ ∀ x ∈ xs, True := by
    obtain ⟨c, cs, hrest⟩ := List.exists_cons_of_ne_nil hstep.rest_ne_nil
    exact ⟨c, cs, hrest, fun _ _ ↦ trivial⟩
  obtain ⟨front, c, cs, hrest, hx, -⟩ := h.exists_place (fun _ _ _ ↦ hP) hs hposition x hx
  exact ⟨front, c, cs, hrest, hx⟩

variable (hs : AtMargin s) (hposition : s.reader.position = .behind before)

include hs hposition

theorem isIn_of_run_eq_ok {ts : List Token} (h : s.run mode [] = .ok ts) :
    ∀ x ∈ ts, x.position.IsIn before s.reader.rest ∨
      x.position = .behind (before ++ s.reader.rest) := by
  obtain ⟨xs, t, hreach, hend, rfl⟩ := run_eq_ok_iff.mp h
  intro x hx
  rcases List.mem_append.mp hx with hx | hx
  · exact .inl (hreach.isIn hs hposition x hx)
  · obtain ⟨front, hfront, hposition'⟩ := hreach.exists_front
    rw [hend, List.append_nil] at hfront
    obtain ⟨k, -, rfl⟩ := List.mem_map.mp hx
    refine .inr ?_
    rw [hfront, ← Position.pastAll_behind, ← hposition, ← hposition']
    rfl

theorem isIn_of_run_eq_error {e : Fault} (h : s.run mode [] = .error e) :
    e.position.IsIn before s.reader.rest := by
  obtain ⟨xs, t, hreach, hfails⟩ := exists_fails_of_run h
  obtain ⟨front, hfront, hposition'⟩ := hreach.exists_front
  obtain ⟨c, cs, hrest⟩ := List.exists_cons_of_ne_nil hfails.rest_ne_nil
  refine ⟨front, c, cs, hrest ▸ hfront, ?_⟩
  rw [hfails.position_eq (hreach.atMargin hs), hposition', hposition,
    Position.pastAll_behind]

end Place

section Front

/-- The scan fails in the same way whatever stands behind its text. -/
def FailsAnyway (mode : Mode) (s : Scan) (e : Fault) : Prop :=
  ∀ found ds, (s.followedBy ds).run mode found = .error e

theorem followedBy_nil (s : Scan) : s.followedBy [] = s := by
  rw [followedBy, List.append_nil]

/-- Each mode makes the step of the lenient one, or it refuses the width of the line. -/
theorem Step.inMode (h : Step .lenient s xs t) (hclosed : ∀ x ∈ xs, x.IsClosed) (mode : Mode) :
    Step mode s xs t ∨ ∃ e, FailsAnyway mode s e := by
  cases mode with
  | lenient => exact .inl h
  | strict =>
      cases h with
      | drop hrest hidle => exact .inl (.drop hrest hidle)
      | dropLast hrest hidle => exact .inl (.dropLast hrest hidle)
      | @settle r l blanks rest c hrest hblanks hlead _ =>
          by_cases hwidth : (l.settle (indentWidth blanks)).2.innermost = indentWidth blanks
          · exact .inl (.settle hrest hblanks hlead fun _ ↦ hwidth)
          · refine .inr ⟨⟨.inconsistentDedent (indentWidth blanks), r.position.margin⟩,
              fun found ds ↦ Fails.run_eq ?_⟩
            have hrest' : r.rest ++ ds = blanks ++ c :: (rest ++ ds) := by simp [hrest]
            exact .ragged (r := ⟨r.rest ++ ds, r.position⟩) hrest' hblanks hlead rfl hwidth
      | piece hrest hpiece htoken =>
          have htoken := Piece.token?_strict hpiece htoken
            (.inr fun x hx ↦ hclosed x (Option.mem_toList.mpr hx))
          exact .inl (.piece hrest hpiece htoken)

theorem Reaches.inMode (h : Reaches .lenient s xs t) (hclosed : ∀ x ∈ xs, x.IsClosed)
    (hs : EndsInBreak s) (mode : Mode) : Reaches mode s xs t ∨ ∃ e, FailsAnyway mode s e := by
  induction h with
  | refl s => exact .inl (.refl s)
  | @step s t u xs ys hstep _ ih =>
      obtain ⟨hxs, hys⟩ := List.forall_mem_append.mp hclosed
      rcases hstep.inMode hxs mode with hstep' | hfails
      · rcases ih hys (hstep'.endsInBreak (.inr hxs) hs) with hreach | ⟨e, hfails⟩
        · exact .inl (.step hstep' hreach)
        · refine .inr ⟨e, fun found ds ↦ ?_⟩
          rw [(Reaches.single (hstep'.inFrontOf (.inr hxs) hs ds)).run_eq]
          exact hfails _ ds
      · exact .inr hfails

end Front

end Scan

/-- A line without tokens can be put in front of any line of a source, or behind the last one. -/
theorem scan_insert_idle {a : String} {ts : List Token} {line : List Char}
    (hbreak : a = "" ∨ ∃ c, a = c ++ "\n") (ha : scan .lenient a = .ok ts)
    (hclosed : ∀ t ∈ ts, t.IsClosed) (hidle : Piece.Idle line) (mode : Mode) (b : String) :
    Shifted a.toList b.toList (scan mode (a ++ b))
      (scan mode (a ++ (String.ofList line ++ "\n" ++ b))) := by
  obtain ⟨xs, t, hreach, hend, rfl⟩ := scan_eq_ok_iff.mp ha
  have hxs : ∀ x ∈ xs, x.IsClosed := fun x hx ↦ hclosed x (List.mem_append_left _ hx)
  have hmargin := Scan.atMargin_start a
  have hstart : (Scan.start a).reader.position = .behind [] := rfl
  rcases hreach.inMode hxs (Scan.endsInBreak_start hbreak) mode with hreach | ⟨e, hfails⟩
  · let seam : Scan := ⟨⟨b.toList, .behind a.toList⟩, t.levels, true⟩
    have hseam : seam.AtMargin := by
      refine fun _ ↦ .inr ?_
      show (Position.behind a.toList).margin = .behind a.toList
      rw [Position.behind_eq_down hbreak]
      rfl
    have hshort : scan mode (a ++ b) = (seam.run mode []).map (xs ++ ·) := by
      rw [scan, (hreach.append hend (.inr hxs) hbreak b).run_eq, Scan.run_eq_map]
      simp [seam]
    have hlong : scan mode (a ++ (String.ofList line ++ "\n" ++ b)) =
        ((seam.down 1).run mode []).map (xs ++ ·) := by
      have hdrop : Scan.Step mode
          ⟨⟨line ++ '\n' :: b.toList, .behind a.toList⟩, t.levels, true⟩ [] (seam.down 1) := by
        have hposition := Position.behind_append_line hidle.newline_notMem hbreak
        rw [← Position.pastAll_behind] at hposition
        have hdrop : Scan.Step mode
            ⟨⟨line ++ '\n' :: b.toList, .behind a.toList⟩, t.levels, true⟩ [] _ := .drop rfl hidle
        rw [Reader.past, hposition] at hdrop
        exact hdrop
      have htext : (String.ofList line ++ "\n" ++ b).toList = line ++ '\n' :: b.toList := by
        simp [String.toList_append]
      have hfirst := hreach.append hend (.inr hxs) hbreak (String.ofList line ++ "\n" ++ b)
      rw [htext] at hfirst
      rw [scan, (hfirst.trans (.single hdrop)).run_eq, Scan.run_eq_map]
      simp
    rw [hshort, hlong]
    rcases seam.run_down 1 with ⟨ys, hys, hdown⟩ | ⟨e, he, hdown⟩
    · rw [hys, hdown]
      exact .tokens (hreach.isIn hmargin hstart) (Scan.isIn_of_run_eq_ok hseam rfl hys)
    · rw [he, hdown]
      exact .faultBehind (Scan.isIn_of_run_eq_error hseam rfl he)
  · -- A width that is refused in `a` is refused whatever stands behind it.
    have hscan (b : String) : scan mode (a ++ b) = .error e := by
      rw [scan, Scan.start_append]
      exact hfails [] b.toList
    have hfault : (Scan.start a).run mode [] = .error e := by
      rw [← (Scan.start a).followedBy_nil]
      exact hfails [] []
    rw [hscan, hscan]
    exact .faultBefore (Scan.isIn_of_run_eq_error hmargin rfl hfault)

/-- The line between the two is wider than any level, and the line behind it closes the level that
the line in front of it has opened. -/
theorem scan_insert_idle_comment :
    let a := "if x:\n  y\n"
    let line := ['\t', ' ', '#', '!', '\r']
    let ts : List Token := [⟨.keyword .ifKw, "if", none, ⟨1, 1⟩⟩,
      ⟨.identifier, "x", some (.text "x"), ⟨1, 4⟩⟩, ⟨.mark .colon, ":", none, ⟨1, 5⟩⟩,
      ⟨.newline, "\n", none, ⟨1, 6⟩⟩, .layout .indent ⟨2, 1⟩,
      ⟨.identifier, "y", some (.text "y"), ⟨2, 3⟩⟩, ⟨.newline, "\n", none, ⟨2, 4⟩⟩,
      .layout .dedent ⟨3, 1⟩, .layout .eof ⟨3, 1⟩]
    (a = "" ∨ ∃ c, a = c ++ "\n") ∧ scan .lenient a = .ok ts ∧ (∀ t ∈ ts, t.IsClosed) ∧
      Piece.Idle line ∧ Shifted a.toList ['z'] (scan .strict "if x:\n  y\nz")
        (scan .strict "if x:\n  y\n\t #!\r\nz") := by
  intro a line ts
  have hbreak : a = "" ∨ ∃ c, a = c ++ "\n" := .inr ⟨"if x:\n  y", by decide +kernel⟩
  have hscan : scan .lenient a = .ok ts := by decide +kernel
  have hclosed : ∀ t ∈ ts, t.IsClosed := by
    intro t ht hkind
    have hnone : ∀ t ∈ ts, t.kind ≠ .string := by decide +kernel
    exact absurd hkind (hnone t ht)
  have hidle : Piece.Idle line :=
    ⟨['\t', ' '], ['#', '!', '\r'], rfl, List.all_eq_true.mp rfl,
      .inr ⟨['!', '\r'], rfl, by decide⟩⟩
  have hshort : a ++ "z" = "if x:\n  y\nz" := by decide +kernel
  have hlong : a ++ (String.ofList line ++ "\n" ++ "z") = "if x:\n  y\n\t #!\r\nz" := by
    decide +kernel
  have h := scan_insert_idle hbreak hscan hclosed hidle .strict "z"
  rw [hshort, hlong] at h
  exact ⟨hbreak, hscan, hclosed, hidle, h⟩

end Offside
