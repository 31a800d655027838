import Offside.Proofs.Scan.Join
import Offside.Proofs.Scan.Reread

/-!
# The text in front of a place

What a scan does up to a place it also does when the source ends there. Only the blanks in front
of the first token of a line do not start a line any more when nothing stands behind them.
-/

namespace Offside

section

variable {p : Char → Bool} {cs ds more : List Char} (h : (cs ++ ds).dropWhile p = more ++ ds)

include h

theorem takeWhile_append_of_dropWhile : (cs ++ ds).takeWhile p ++ more = cs := by
  have hall : ((cs ++ ds).takeWhile p ++ more) ++ ds = cs ++ ds := by
    rw [List.append_assoc, ← h, List.takeWhile_append_dropWhile]
  exact List.append_cancel_right hall

theorem head?_of_dropWhile : ∀ d ∈ more.head?, ¬ p d := by
  intro d hd
  have hfirst : d ∈ ((cs ++ ds).dropWhile p).head? := by
    obtain ⟨es, rfl⟩ := List.head?_eq_some_iff.mp hd
    rw [h]
    rfl
  exact Lexeme.not_of_mem_head?_dropWhile hfirst

theorem takeWhile_truncate : cs.takeWhile p = (cs ++ ds).takeWhile p := by
  have hhead := head?_of_dropWhile h
  have hall : ∀ d ∈ (cs ++ ds).takeWhile p, p d := fun _ hd ↦ List.mem_takeWhile_imp hd
  conv_lhs => rw [← takeWhile_append_of_dropWhile h, List.takeWhile_append_of_pos hall]
  cases more with
  | nil => exact List.append_nil _
  | cons d more => rw [List.takeWhile_cons_of_neg (hhead d rfl), List.append_nil]

theorem dropWhile_truncate : cs.dropWhile p = more := by
  have hall : cs.takeWhile p ++ cs.dropWhile p = cs.takeWhile p ++ more := by
    rw [List.takeWhile_append_dropWhile, takeWhile_truncate h, takeWhile_append_of_dropWhile h]
  exact List.append_cancel_left hall

end

namespace Piece

open Lexeme

variable {c : Char} {cs ds more : List Char} {p : Piece}

theorem run_truncate {shape : Shape} {q : Char → Bool}
    (hrest : (run shape q c (cs ++ ds)).rest = more ++ ds) :
    run shape q c cs = { run shape q c (cs ++ ds) with rest := more } := by
  have htake := takeWhile_truncate hrest
  have hdrop := dropWhile_truncate hrest
  simp only [run, htake, hdrop]

theorem numeral_truncate (hrest : (numeral c (cs ++ ds)).rest = more ++ ds) :
    numeral c cs = { numeral c (cs ++ ds) with rest := more } := by
  unfold numeral at hrest
  split at hrest
  · next rest hpoint =>
      -- the digits behind the point are cut off in the same way as those in front of it
      have hplaces : rest = rest.takeWhile Char.isDigit ++ more ++ ds := by
        rw [List.append_assoc, ← hrest, List.takeWhile_append_dropWhile]
      generalize rest.takeWhile Char.isDigit ++ more = places at hplaces
      subst hplaces
      have hpoint : (cs ++ ds).dropWhile Char.isDigit = ('.' :: places) ++ ds := hpoint
      have htake := takeWhile_truncate hpoint
      have hdrop := dropWhile_truncate hpoint
      have htake' := takeWhile_truncate hrest
      have hdrop' := dropWhile_truncate hrest
      simp only [numeral, hpoint, htake, hdrop, List.cons_append, htake', hdrop']
  · next hpoint =>
      have htake := takeWhile_truncate hrest
      have hdrop := dropWhile_truncate hrest
      have hne : ∀ rest, more ≠ '.' :: rest := by
        rintro rest rfl
        exact hpoint (rest ++ ds) hrest
      simp only [numeral, htake, hdrop]

theorem stringFrom_truncate (hquote : isQuote c)
    (hrest : (stringFrom c [] [c] (cs ++ ds)).rest = more ++ ds) (hds : ds ≠ []) :
    stringFrom c [] [c] cs = { stringFrom c [] [c] (cs ++ ds) with rest := more } := by
  have happ := stringFrom_append c [] [c] (cs ++ ds)
  obtain ⟨body, text, hbody, rest, hcut | ⟨tail, -, hcut⟩⟩ :=
    stringFrom_decodes c [] [c] (cs ++ ds)
  · rw [hcut] at happ hrest
    obtain rfl : rest = more ++ ds := hrest
    have hcs : cs ++ ds = (body ++ c :: more) ++ ds := by simpa using happ.symm
    obtain rfl := List.append_cancel_right hcs
    rw [hcut, stringFrom_of_decodes hbody (ne_backslash_of_isQuote hquote)]
  · rw [hcut] at hrest
    exact absurd (List.append_eq_nil_iff.mp hrest.symm).2 hds

theorem mark?_truncate (h : mark? c (cs ++ ds) = some p) (hrest : p.rest = more ++ ds) :
    mark? c cs = some { p with rest := more } := by
  rcases mark?_cases h with ⟨m, rfl, hm, hnone⟩ | ⟨m, d, rest, rfl, hm⟩
  · obtain rfl := List.append_cancel_right hrest
    obtain ⟨hsingle, -⟩ := mark_single hm
    cases cs with
    | nil => simp [mark?, hsingle]
    | cons d cs => simp [mark?, hnone d rfl, hsingle]
  · have happ := mark?_append h
    obtain rfl : rest = more ++ ds := hrest
    have hcs : cs ++ ds = (d :: more) ++ ds := by simpa using happ.symm
    obtain rfl := List.append_cancel_right hcs
    simp [mark?, (mark_pair hm).2]

/-- A piece is cut off in the same way when the text ends somewhere behind it. -/
theorem at?_truncate (h : at? c (cs ++ ds) = some p) (hrest : p.rest = more ++ ds)
    (hds : ds ≠ []) : at? c cs = some { p with rest := more } := by
  unfold at? at h ⊢
  split_ifs at h ⊢ with _ _ _ _ hquote
  all_goals try obtain rfl := Option.some.inj h
  · rw [run_truncate hrest]
  · obtain rfl := List.append_cancel_right hrest
    rfl
  · rw [run_truncate hrest]
  · rw [numeral_truncate hrest]
  · rw [stringFrom_truncate hquote hrest hds]
  · rw [run_truncate hrest]
  · exact mark?_truncate h hrest

end Piece

namespace Scan

variable {mode : Mode} {s t u : Scan} {xs : List Token} {ds more : List Char}

/-- A step does the same when the text ends somewhere behind what it reads, unless it stops in
front of the first token of a line and nothing is left of that. -/
theorem Step.truncate (h : Step mode (s.followedBy ds) xs u) (hrest : u.reader.rest = more ++ ds)
    (hds : ds ≠ []) :
    (∃ t, Step mode s xs t ∧ u = t.followedBy ds) ∨
      s.lineStart = true ∧ Piece.Idle s.reader.rest ∧ more = [] ∧ u.lineStart = false := by
  obtain ⟨⟨cs, position⟩, l, lineStart⟩ := s
  have hcut {front : List Char} (hcs : cs ++ ds = front ++ (more ++ ds)) : cs = front ++ more := by
    rw [← List.append_assoc] at hcs
    exact List.append_cancel_right hcs
  replace h : Step mode ⟨⟨cs ++ ds, position⟩, l, lineStart⟩ xs u := h
  cases h with
  | @drop _ _ line rest hline hidle =>
      obtain rfl : rest = more ++ ds := hrest
      obtain rfl : cs = line ++ '\n' :: more := by
        have hline : cs ++ ds = (line ++ ['\n']) ++ (more ++ ds) := by simpa using hline
        simpa using hcut hline
      exact .inl ⟨_, .drop rfl hidle, rfl⟩
  | dropLast _ _ => exact absurd (List.append_eq_nil_iff.mp hrest.symm).2 hds
  | @settle _ _ blanks rest c hline hblanks hlead hmode =>
      replace hrest : c :: rest = more ++ ds := hrest
      have hcs := hcut (hrest ▸ hline)
      cases more with
      | nil => exact .inr ⟨rfl, ⟨blanks, [], hcs, hblanks, .inl rfl⟩, rfl, rfl⟩
      | cons d more =>
          obtain ⟨rfl, rfl⟩ := List.cons.inj hrest
          exact .inl ⟨_, .settle hcs hblanks hlead hmode, rfl⟩
  | @piece _ _ c rest p token hline hpiece htoken =>
      replace hline : cs ++ ds = c :: rest := hline
      replace hrest : p.rest = more ++ ds := hrest
      have happ := Piece.at?_append hpiece
      rw [hrest] at happ
      obtain rfl := hcut (hline.trans happ.symm)
      obtain ⟨p, lexeme, _⟩ := p
      obtain ⟨d, lexeme, rfl⟩ := List.exists_cons_of_ne_nil (Piece.at?_lexeme_ne_nil hpiece)
      obtain ⟨rfl, rfl⟩ : d = c ∧ (lexeme ++ more) ++ ds = rest := by simpa using hline
      obtain rfl := hrest
      have hpiece' := Piece.at?_truncate hpiece rfl hds
      exact .inl ⟨_, .piece rfl hpiece' htoken, rfl⟩

/-- In a line every step reads something. -/
theorem Reaches.eq_of_rest_eq (h : Reaches mode s xs t) (hline : s.lineStart = false)
    (hrest : t.reader.rest = s.reader.rest) : t = s := by
  cases h with
  | refl _ => rfl
  | step hstep hreach =>
      obtain ⟨front, hfront, -⟩ := hreach.exists_front
      cases hstep with
      | drop _ _ | dropLast _ _ | settle _ _ _ _ => cases hline
      | @piece r l c cs p _ hcs hpiece _ =>
          have hlt := Piece.length_rest_lt hpiece
          have hlength := congrArg List.length hfront
          have hsame := congrArg List.length hrest
          simp only [Reader.past, hcs, List.length_append] at hlength hsame
          omega

/-- With a line without tokens in front of it a scan comes to the end. -/
theorem exists_reaches_of_idle (mode : Mode) (hstart : s.lineStart = true)
    (hidle : Piece.Idle s.reader.rest) :
    ∃ t, Reaches mode s [] t ∧ t.reader.rest = [] := by
  by_cases hrest : s.reader.rest = []
  · exact ⟨s, .refl s, hrest⟩
  · obtain ⟨r, l, _ | _⟩ := s
    · cases hstart
    · exact ⟨_, .single (.dropLast hrest hidle), rfl⟩

/-- Where the source ends behind what it has read, a scan comes to the end. At the start of a line
it has then found what it would have found otherwise. -/
theorem Reaches.truncate (h : Reaches mode (s.followedBy ds) xs u) (hrest : u.reader.rest = ds)
    (hds : ds ≠ []) :
    ∃ ys t, Reaches mode s ys t ∧ t.reader.rest = [] ∧
      (u.lineStart = true → u = t.followedBy ds) := by
  generalize hv : s.followedBy ds = v at h
  induction h generalizing s with
  | refl _ =>
      subst hv
      exact ⟨[], s, .refl s, List.append_left_eq_self.mp hrest, fun _ ↦ rfl⟩
  | @step _ t u xs ys hstep hreach ih =>
      subst hv
      obtain ⟨more, hmore, -⟩ := hreach.exists_front
      rw [hrest] at hmore
      rcases hstep.truncate hmore hds with ⟨t, hstep', rfl⟩ | ⟨hstart, hidle, rfl, hline⟩
      · obtain ⟨zs, w, hreach', hw⟩ := ih hrest rfl
        exact ⟨_, w, .step hstep' hreach', hw⟩
      · obtain ⟨w, hreach', hw⟩ := exists_reaches_of_idle mode hstart hidle
        have hu := hreach.eq_of_rest_eq hline (hrest.trans hmore.symm)
        refine ⟨[], w, hreach', hw, fun hstart' ↦ ?_⟩
        rw [hu, hline] at hstart'
        cases hstart'

end Scan
end Offside
