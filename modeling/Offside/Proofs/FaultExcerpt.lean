import Offside.Fault.Excerpt
import Offside.Proofs.BlankLines

/-!
# Where a fault is shown

The position of a fault is that of a character of its source, or of its end. So the source has the
line that the position names, and the caret stands under the character at its column. The white
space around the line is not shown: in front of the excerpt the caret does not go, and behind it
there are only dashes.
-/

namespace Offside

namespace Text

variable {p q : Char → Bool}

theorem dropEndWhile_concat_pos {c : Char} (h : p c) (cs : List Char) :
    dropEndWhile p (cs ++ [c]) = dropEndWhile p cs :=
  List.rdropWhile_concat_pos p cs c h

theorem dropEndWhile_concat_neg {c : Char} (h : ¬ p c) (cs : List Char) :
    dropEndWhile p (cs ++ [c]) = cs ++ [c] :=
  List.rdropWhile_concat_neg p cs c h

/-- What is dropped first may as well be dropped with the rest. -/
theorem dropEndWhile_dropEndWhile (h : ∀ c, p c → q c) (cs : List Char) :
    dropEndWhile q (dropEndWhile p cs) = dropEndWhile q cs := by
  induction cs using List.reverseRecOn with
  | nil => rfl
  | append_singleton cs c ih =>
      by_cases hc : p c
      · rw [dropEndWhile_concat_pos hc, dropEndWhile_concat_pos (h c hc), ih]
      · rw [dropEndWhile_concat_neg hc]

theorem takeWhile_concat_neg {c : Char} (h : ¬ q c) (cs : List Char) :
    (cs ++ [c]).takeWhile q = cs.takeWhile q := by
  rw [List.takeWhile_append]
  split
  · next hall => simp [h, List.takeWhile_prefix q |>.eq_of_length hall]
  · rfl

theorem dropWhile_concat_neg {c : Char} (h : ¬ q c) (cs : List Char) :
    (cs ++ [c]).dropWhile q = cs.dropWhile q ++ [c] := by
  rw [List.dropWhile_append]
  split
  · next hempty => simp [h, List.isEmpty_iff.mp hempty]
  · rfl

/-- Dropping from the end leaves what the text starts with. -/
theorem takeWhile_dropEndWhile (h : ∀ c, p c → ¬ q c) (cs : List Char) :
    (dropEndWhile p cs).takeWhile q = cs.takeWhile q := by
  induction cs using List.reverseRecOn with
  | nil => rfl
  | append_singleton cs c ih =>
      by_cases hc : p c
      · rw [dropEndWhile_concat_pos hc, takeWhile_concat_neg (h c hc), ih]
      · rw [dropEndWhile_concat_neg hc]

theorem dropWhile_dropEndWhile (h : ∀ c, p c → ¬ q c) (cs : List Char) :
    (dropEndWhile p cs).dropWhile q = dropEndWhile p (cs.dropWhile q) := by
  induction cs using List.reverseRecOn with
  | nil => rfl
  | append_singleton cs c ih =>
      by_cases hc : p c
      · rw [dropEndWhile_concat_pos hc, dropWhile_concat_neg (h c hc), dropEndWhile_concat_pos hc,
          ih]
      · rw [dropEndWhile_concat_neg hc, List.dropWhile_append]
        split
        · by_cases hq : q c
          · simp [hq]
          · simp [hq, dropEndWhile, hc]
        · rw [dropEndWhile_concat_neg hc]

end Text

namespace Source

theorem length_splitOn (cs : List Char) :
    (cs.splitOn '\n').length = Position.breaks cs + 1 := by
  rw [List.splitOn_eq_splitOnP]
  induction cs with
  | nil => rfl
  | cons c cs ih =>
      rw [List.splitOnP_cons_eq_if_modifyHead, Position.breaks, List.count_cons]
      split <;> simp [ih, Position.breaks]

/-- The first line, and those behind its line break. -/
theorem splitOn_eq_cons (cs : List Char) :
    cs.splitOn '\n' = cs.takeWhile (· ≠ '\n') ::
      match cs.dropWhile (· ≠ '\n') with
      | [] => []
      | _ :: rest => rest.splitOn '\n' := by
  have hfirst : '\n' ∉ cs.takeWhile (· ≠ '\n') := fun h ↦ by
    simpa using List.mem_takeWhile_imp h
  have hbreak := List.head?_dropWhile_not (· ≠ '\n') cs
  conv_lhs => rw [← List.takeWhile_append_dropWhile (p := (· ≠ '\n')) (l := cs)]
  generalize cs.dropWhile (· ≠ '\n') = tail at hbreak ⊢
  cases tail with
  | nil => rw [List.append_nil, List.splitOn_eq_singleton hfirst]
  | cons c rest =>
      obtain rfl : c = '\n' := by simpa using hbreak
      rw [List.splitOn_append_cons_self, List.splitOn_eq_singleton hfirst, List.singleton_append]

theorem getElem?_splitOn (cs : List Char) (n : Nat) :
    (cs.splitOn '\n')[n]? = (fromLine? n cs).map (List.takeWhile (· ≠ '\n')) := by
  induction n generalizing cs with
  | zero => rw [splitOn_eq_cons]; rfl
  | succ n ih =>
      rw [splitOn_eq_cons, List.getElem?_cons_succ, fromLine?]
      cases cs.dropWhile (· ≠ '\n') with
      | nil => rfl
      | cons c rest => exact ih rest

/-- The numbers count the lines between the line breaks from 1. -/
theorem line?_succ (cs : List Char) (n : Nat) :
    line? cs (n + 1) = (cs.splitOn '\n')[n]?.map (Text.dropEndWhile (· = '\r')) := by
  rw [getElem?_splitOn, Option.map_map]
  rfl

/-- The line of the place between two texts. -/
theorem getElem?_splitOn_append (before after : List Char) :
    ((before ++ after).splitOn '\n')[Position.breaks before]? =
      some (before.rtakeWhile (· ≠ '\n') ++ after.takeWhile (· ≠ '\n')) := by
  induction before using List.reverseRecOn generalizing after with
  | nil => rw [List.nil_append, getElem?_splitOn]; rfl
  | append_singleton before c ih =>
      rw [List.append_assoc, List.singleton_append]
      by_cases hc : c = '\n'
      · subst hc
        have hbreaks : Position.breaks (before ++ ['\n']) = (before.splitOn '\n').length := by
          rw [length_splitOn, Position.breaks, List.count_append, List.count_singleton_self,
            Position.breaks]
        rw [hbreaks, List.splitOn_append_cons_self, List.getElem?_append_right (Nat.le_refl _),
          Nat.sub_self, splitOn_eq_cons, List.rtakeWhile_concat_neg _ _ _ (by simp)]
        rfl
      · simpa [Position.breaks, hc] using ih (c :: after)

end Source

namespace Excerpt

/-- A line is cut into the blanks in front, the text that an excerpt shows, and the white space
behind it. -/
structure Cut (line lead text trail : List Char) : Prop where
  split : line = lead ++ (text ++ trail)
  blanks : ∀ c ∈ lead, c = ' ' ∨ c = '\t'
  first : ∀ c ∈ (text ++ trail).head?, c ≠ ' ' ∧ c ≠ '\t'
  white : ∀ c ∈ trail, Unicode.isWhiteSpace c
  last : ∀ c ∈ text.getLast?, ¬ Unicode.isWhiteSpace c

/-- A caret behind `k` characters of the excerpt marks the place between `here` and `there`. In the
blanks in front of the excerpt a place is marked at its first character, and if there is nothing
but white space behind the place the caret stands behind the excerpt. -/
structure Marks (lead text here there : List Char) (k : Nat) : Prop where
  leading : here.length < lead.length → k = 0
  offset : lead.length ≤ here.length → lead.length + k = here.length
  shown : lead.length ≤ here.length → k < text.length → text[k]? = there.head?
  beyond : lead.length ≤ here.length → (text.length ≤ k ↔ ∀ c ∈ there, Unicode.isWhiteSpace c)

def sourceRow (line : Nat) (text : List Char) : String :=
  toString line ++ " | " ++ String.ofList text

def caretRow (line k : Nat) : String :=
  String.ofList (List.replicate ((toString line).length + 1) ' ') ++ "| " ++
    String.ofList (List.replicate k '-') ++ "^"

theorem isLeadingBlank_iff {c : Char} : isLeadingBlank c = true ↔ c = ' ' ∨ c = '\t' := by
  simp [isLeadingBlank]

/-- The excerpt of a line is cut from it, with the carriage returns at its end. -/
theorem exists_cut (p : Position) (line : List Char) : ∃ lead text trail,
    Cut line lead text trail ∧ ofLine p (Text.dropEndWhile (· = '\r') line) =
      ⟨p.line.toNat, String.ofList text, max 1 (p.column.toNat - lead.length)⟩ := by
  have hreturn : ∀ c : Char, (c = '\r' : Bool) → ¬ isLeadingBlank c := by
    intro c hc
    rw [of_decide_eq_true hc]
    decide
  have hwhite : ∀ c : Char, (c = '\r' : Bool) → Unicode.isWhiteSpace c := by
    intro c hc
    rw [of_decide_eq_true hc]
    decide
  let body := line.dropWhile isLeadingBlank
  have hbody : Text.dropEndWhile Unicode.isWhiteSpace body ++ body.rtakeWhile Unicode.isWhiteSpace =
      body := List.rdropWhile_append_rtakeWhile
  refine ⟨line.takeWhile isLeadingBlank, Text.dropEndWhile Unicode.isWhiteSpace body,
    body.rtakeWhile Unicode.isWhiteSpace, ⟨?_, ?_, ?_, ?_, ?_⟩, ?_⟩
  · rw [hbody, List.takeWhile_append_dropWhile]
  · exact fun c hc ↦ isLeadingBlank_iff.mp (List.mem_takeWhile_imp hc)
  · intro c hc
    rw [hbody] at hc
    have hfirst := List.head?_dropWhile_not isLeadingBlank line
    rw [show (line.dropWhile isLeadingBlank).head? = some c from hc] at hfirst
    exact not_or.mp fun h ↦ by simp [isLeadingBlank_iff.mpr h] at hfirst
  · exact fun c hc ↦ List.mem_rtakeWhile_imp hc
  · intro c hc
    obtain ⟨hne, rfl⟩ := List.mem_getLast?_eq_getLast hc
    exact List.rdropWhile_last_not _ _ hne
  · rw [ofLine, Text.takeWhile_dropEndWhile hreturn, Text.dropWhile_dropEndWhile hreturn,
      Text.dropEndWhile_dropEndWhile hwhite]

variable {line lead text trail here there : List Char}

/-- Behind the blanks in front, what is behind a place is the rest of the excerpt and the white
space behind it. -/
theorem Cut.there_eq (h : Cut (here ++ there) lead text trail) {k : Nat}
    (hk : lead.length + k = here.length) :
    there = text.drop k ++ trail.drop (k - text.length) := by
  calc there = (here ++ there).drop here.length := List.drop_left.symm
    _ = (lead ++ (text ++ trail)).drop (lead.length + k) := by rw [h.split, hk]
    _ = text.drop k ++ trail.drop (k - text.length) := by
      rw [List.drop_append, List.drop_append, List.drop_eq_nil_of_le (Nat.le_add_right _ k),
        Nat.add_sub_cancel_left, List.nil_append]

theorem Cut.marks (h : Cut (here ++ there) lead text trail) :
    Marks lead text here there (here.length - lead.length) := by
  generalize hk : here.length - lead.length = k
  have hthere (hle : lead.length ≤ here.length) := h.there_eq (k := k) (by omega)
  refine ⟨by omega, by omega, fun hle hlt ↦ ?_, fun hle ↦ ⟨fun hk c hc ↦ ?_, fun hall ↦ ?_⟩⟩
  · rw [hthere hle, List.head?_append, List.head?_drop, List.getElem?_eq_getElem hlt,
      Option.some_or]
  · rw [hthere hle, List.drop_eq_nil_of_le hk, List.nil_append] at hc
    exact h.white c (List.mem_of_mem_drop hc)
  · by_contra hlt
    have hne : text.drop k ≠ [] := by simpa using hlt
    refine h.last ((text.drop k).getLast hne) ?_ (hall _ ?_)
    · rw [List.getLast_drop]
      exact List.getLast?_eq_some_getLast _
    · rw [hthere hle]
      exact List.mem_append_left _ (List.getLast_mem hne)

/-- The last two rows of a rendered excerpt. -/
theorem render_eq (line k : Nat) (text : List Char) :
    ∃ top, render ⟨line, String.ofList text, k + 1⟩ =
      top ++ "\n" ++ sourceRow line text ++ "\n" ++ caretRow line k ++ "\n" := by
  have hgutter : padLeft ' ' ((toString line).length + 2) "|" ++ " " =
      String.ofList (List.replicate ((toString line).length + 1) ' ') ++ "| " :=
    String.append_assoc
  have hcaret : padLeft '-' (k + 1) "^" = String.ofList (List.replicate k '-') ++ "^" := rfl
  refine ⟨padLeft ' ' ((toString line).length + 2) "|", ?_⟩
  rw [render, sourceRow, caretRow, hcaret, ← hgutter]
  simp only [String.append_assoc]

end Excerpt

/-- The fault is that of the place between `here` and `there` on its line: the source has the line,
and whatever the file is called, the fault is shown with an excerpt of it and a caret that marks
the place. -/
structure Fault.Shown (f : Fault) (source : String) (here there : List Char) : Prop where
  line_pos : 1 ≤ f.position.line.toNat
  line : (source.toList.splitOn '\n')[f.position.line.toNat - 1]? = some (here ++ there)
  column : f.position.column.toNat = here.length + 1
  rows : ∃ lead text trail k, Excerpt.Cut (here ++ there) lead text trail ∧
    Excerpt.Marks lead text here there k ∧
    ∀ file, ∃ top, f.render source file =
      top ++ "\n" ++ Excerpt.sourceRow f.position.line.toNat text ++ "\n" ++
        Excerpt.caretRow f.position.line.toNat k ++ "\n"

theorem Fault.shown_of_behind {f : Fault} {source : String} {before after : List Char}
    (hsource : source.toList = before ++ after) (hposition : f.position = .behind before)
    (hline : 1 + Position.breaks before < 2 ^ 32) (hcolumn : 1 + Position.onLine before < 2 ^ 32) :
    f.Shown source (before.rtakeWhile (· ≠ '\n')) (after.takeWhile (· ≠ '\n')) := by
  have hline' : f.position.line.toNat = Position.breaks before + 1 := by
    rw [hposition, Nat.add_comm]
    exact UInt32.toNat_ofNat_of_lt' hline
  have hcolumn' : f.position.column.toNat = (before.rtakeWhile (· ≠ '\n')).length + 1 := by
    rw [hposition, Nat.add_comm]
    exact UInt32.toNat_ofNat_of_lt' hcolumn
  have hrow := Source.getElem?_splitOn_append before after
  rw [← hsource] at hrow
  generalize before.rtakeWhile (· ≠ '\n') = here at hcolumn' hrow ⊢
  generalize after.takeWhile (· ≠ '\n') = there at hrow ⊢
  obtain ⟨lead, text, trail, hcut, hexcerpt⟩ := Excerpt.exists_cut f.position (here ++ there)
  have hreach : max 1 (here.length + 1 - lead.length) = here.length - lead.length + 1 := by omega
  rw [hcolumn', hreach] at hexcerpt
  refine ⟨by omega, ?_, hcolumn', lead, text, trail, _, hcut, hcut.marks, fun file ↦ ?_⟩
  · rw [hline', Nat.add_sub_cancel, hrow]
  · obtain ⟨top, htop⟩ :=
      Excerpt.render_eq f.position.line.toNat (here.length - lead.length) text
    rw [← hexcerpt] at htop
    have hexcerpt? : f.excerpt? source = some
        (Excerpt.ofLine f.position (Text.dropEndWhile (· = '\r') (here ++ there))) := by
      rw [excerpt?, hline', Source.line?_succ, hrow]
      rfl
    refine ⟨f.headline ++ "-> " ++ file ++ ":" ++ f.position.text ++ "\n" ++ top, ?_⟩
    rw [render, hexcerpt?]
    simp only [htop, String.append_assoc]

/-- The tokens of a source end with the end mark. -/
theorem sealTokens_of_scan {mode : Mode} {source : String} {ts : List Token}
    (h : scan mode source = .ok ts) : Cursor.sealTokens ts = ts := by
  obtain ⟨xs, t, -, -, rfl⟩ := scan_eq_ok_iff.mp h
  rw [Scan.finish_eq, ← List.append_assoc, Cursor.sealTokens, List.getLast?_concat]
  rfl

/-- A fault of a source has the position of a character of the source, or of its end. -/
theorem exists_behind_of_run_eq_error {mode : Mode} {source : String} {f : Fault}
    (h : run mode source = .error f) :
    ∃ before after, source.toList = before ++ after ∧ f.position = .behind before := by
  have hmargin := Scan.atMargin_start source
  have hstart : (Scan.start source).reader.position = .behind [] := rfl
  have hisIn {p : Position} (hp : p.IsIn [] source.toList) :
      ∃ before after, source.toList = before ++ after ∧ p = .behind before := by
    obtain ⟨front, c, cs, hsplit, hp⟩ := hp
    exact ⟨front, c :: cs, hsplit, hp⟩
  cases hscan : scan mode source with
  | error e =>
      rw [run_of_scan_error hscan] at h
      cases h
      exact hisIn (Scan.isIn_of_run_eq_error hmargin hstart hscan)
  | ok ts =>
      rw [run_eq_parse hscan] at h
      obtain ⟨t, ht, hblamed⟩ := exists_blamed_of_parse_eq_error h
      rw [sealTokens_of_scan hscan] at ht
      have hposition : f.position = t.position := by
        cases hblamed <;> rfl
      rw [hposition]
      rcases Scan.isIn_of_run_eq_ok hmargin hstart hscan t ht with ht | ht
      · exact hisIn ht
      · exact ⟨source.toList, [], (List.append_nil _).symm, ht⟩

/-- Every fault stands at some place of its source. If the place is counted in 32 bits, its line is
one of the source, its column one of the line or the one behind, and a rendered fault ends with the
line and a caret under the place. -/
theorem run_fault_shown {mode : Mode} {source : String} {f : Fault}
    (h : run mode source = .error f) :
    ∃ before after, source.toList = before ++ after ∧ f.position = .behind before ∧
      (1 + Position.breaks before < 2 ^ 32 → 1 + Position.onLine before < 2 ^ 32 →
        f.Shown source (before.rtakeWhile (· ≠ '\n')) (after.takeWhile (· ≠ '\n'))) := by
  obtain ⟨before, after, hsource, hposition⟩ := exists_behind_of_run_eq_error h
  exact ⟨before, after, hsource, hposition, Fault.shown_of_behind hsource hposition⟩

/-- A tab in front of the line, and a blank and a carriage return behind it. -/
theorem run_fault_shown_tab :
    let source := "if a:\n\tb = @ \r\n"
    let f : Fault := ⟨.unrecognisedCharacter '@', ⟨2, 6⟩⟩
    run .lenient source = .error f ∧ ∃ here there, f.Shown source here there := by
  intro source f
  have hscan : scan .lenient source = .error f := by decide +kernel
  have hlength : source.toList.length < 2 ^ 31 := by decide
  obtain ⟨before, after, hsource, -, hshown⟩ := run_fault_shown (run_of_scan_error hscan)
  rw [hsource, List.length_append] at hlength
  have hbreaks := Position.breaks_le_length before
  have honLine := Position.onLine_le_length before
  exact ⟨run_of_scan_error hscan, _, _, hshown (by omega) (by omega)⟩

end Offside
