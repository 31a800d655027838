import Mathlib.Data.List.DropRight
import Offside.Proofs.Scan.Lexeme
import Offside.Proofs.Scan.Lines

/-!
# Sources as lexemes and gaps

The tokens of a source account for all of it. Its text is cut into the lexemes of the tokens and
the gaps in front of them, and each token has the position where its lexeme stands. Blanks and
comments are in gaps, as are the line breaks of lines without tokens.
-/

namespace Offside

namespace Position

/-- How many line breaks there are. -/
def breaks (cs : List Char) : Nat :=
  cs.count '\n'

/-- How many characters there are after the last line break. -/
def onLine (cs : List Char) : Nat :=
  (cs.rtakeWhile (· ≠ '\n')).length

/-- The position behind a text that starts a source. Both numbers wrap. -/
def behind (cs : List Char) : Position :=
  ⟨.ofNat (1 + breaks cs), .ofNat (1 + onLine cs)⟩

theorem behind_concat (cs : List Char) (c : Char) : behind (cs ++ [c]) = (behind cs).past c := by
  by_cases hc : c = '\n'
  · subst hc
    simp [behind, past, breaks, onLine, ← Nat.add_assoc]
  · simp [behind, past, breaks, onLine, hc, ← Nat.add_assoc]

theorem pastAll_behind (before cs : List Char) :
    (behind before).pastAll cs = behind (before ++ cs) := by
  induction cs generalizing before with
  | nil => rw [List.append_nil, pastAll_nil]
  | cons c cs ih => rw [pastAll_cons, ← behind_concat, ih, List.append_assoc, List.singleton_append]

theorem breaks_le_length (cs : List Char) : breaks cs ≤ cs.length :=
  List.count_le_length

theorem onLine_le_length (cs : List Char) : onLine cs ≤ cs.length :=
  (List.rtakeWhile_suffix _ _).length_le

/-- In 32 bits the position behind a text is counted exactly if the text is short enough. -/
theorem toNat_behind {cs : List Char} (h : cs.length + 1 < 2 ^ 32) :
    (behind cs).line.toNat = 1 + breaks cs ∧ (behind cs).column.toNat = 1 + onLine cs := by
  have hbreaks := breaks_le_length cs
  have honLine := onLine_le_length cs
  have hsize : UInt32.size = 2 ^ 32 := rfl
  exact ⟨UInt32.toNat_ofNat_of_lt' (by omega), UInt32.toNat_ofNat_of_lt' (by omega)⟩

/-- Characters on the same line do not move the line. -/
theorem breaks_append {cs : List Char} (h : '\n' ∉ cs) (before : List Char) :
    breaks (before ++ cs) = breaks before := by
  rw [breaks, List.count_append, List.count_eq_zero.mpr h, Nat.add_zero, breaks]

theorem margin_behind {p : Position} {cs : List Char} (h : p.line.toNat = 1 + breaks cs) :
    (behind cs).margin = ⟨p.line, 1⟩ := by
  rw [margin, behind, ← h, UInt32.ofNat_toNat]

end Position

/-- What may stand between two lexemes, with the text behind it: blanks and a comment that goes to
the end of its line. In front of the first token of a line there may also be whole lines without
tokens. -/
inductive Gap : Bool → List Char → List Char → Prop
  | blanks {lineStart : Bool} {gap rest : List Char} (h : ∀ c ∈ gap, Piece.isBlank c) :
      Gap lineStart gap rest
  | comment {lineStart : Bool} {blanks comment rest : List Char}
      (hblanks : ∀ c ∈ blanks, Piece.isBlank c) (hcomment : '\n' ∉ comment)
      (hrest : ∀ c ∈ rest.head?, c = '\n') : Gap lineStart (blanks ++ '#' :: comment) rest
  | line {line gap rest : List Char} (hline : Piece.Idle line) (h : Gap true gap rest) :
      Gap true (line ++ '\n' :: gap) rest

/-- The tokens that the text `rest` of a source has behind the text `before`. The flag tells
whether `rest` starts a line, as at the start of the source and after a line break token; only
then can indents and dedents stand in front of a token, in the first column of its line. The
dedents and the mark at the end stand where the source ends. -/
inductive Segmented (mode : Mode) : List Char → Bool → List Token → List Char → Prop
  | finish {before gap : List Char} {lineStart : Bool} {ks : List Kind}
      (hgap : Gap lineStart gap []) (hks : ∀ k ∈ ks, k = .dedent) :
      Segmented mode before lineStart
        ((ks ++ [Kind.eof]).map (Token.layout · (Position.behind (before ++ gap)))) gap
  | token {before gap w rest : List Char} {lineStart : Bool} {ks : List Kind} {t : Token}
      {ts : List Token} (hgap : Gap lineStart gap (w ++ rest))
      (hks : ∀ k ∈ ks, lineStart = true ∧ (k = .indent ∨ k = .dedent))
      (hlexeme : t.lexeme = String.ofList w)
      (hdenotes : Lexeme.Denotes mode rest t.kind w t.literal) (hlongest : Lexeme.Longest w rest)
      (hline : t.position.line.toNat = 1 + Position.breaks (before ++ gap))
      (hcolumn : t.position.column.toNat = 1 + Position.onLine (before ++ gap))
      (h : Segmented mode (before ++ gap ++ w) (t.kind = .newline) ts rest) :
      Segmented mode before lineStart (ks.map (Token.layout · ⟨t.position.line, 1⟩) ++ t :: ts)
        (gap ++ (w ++ rest))

namespace Gap

variable {gap rest : List Char} {lineStart : Bool}

/-- Within a line a gap starts with a blank or a comment. -/
theorem eq_nil_of_head? (h : Gap false gap rest)
    (hhead : ∀ c ∈ (gap ++ rest).head?, ¬ Piece.isBlank c ∧ c ≠ '#') : gap = [] := by
  cases h with
  | blanks h =>
      cases gap with
      | nil => rfl
      | cons c gap => exact absurd (h c List.mem_cons_self) (hhead c rfl).1
  | @comment _ blanks _ _ hblanks _ _ =>
      cases blanks with
      | nil => exact absurd rfl (hhead '#' rfl).2
      | cons c blanks => exact absurd (hblanks c List.mem_cons_self) (hhead c rfl).1

theorem append_blanks {blanks : List Char} (hblanks : ∀ c ∈ blanks, Piece.isBlank c)
    (h : Gap false gap rest) : Gap lineStart (blanks ++ gap) rest := by
  cases h with
  | blanks h =>
      refine .blanks fun c hc ↦ ?_
      rcases List.mem_append.mp hc with hc | hc
      · exact hblanks c hc
      · exact h c hc
  | @comment _ others comment _ hothers hcomment hrest =>
      rw [← List.append_assoc]
      refine .comment (fun c hc ↦ ?_) hcomment hrest
      rcases List.mem_append.mp hc with hc | hc
      · exact hblanks c hc
      · exact hothers c hc

end Gap

namespace Segmented

variable {mode : Mode} {before front rest : List Char} {lineStart : Bool} {ts : List Token}

/-- What can be put in front of every gap can be put in front of the text. -/
theorem prepend (hgap : ∀ gap more, gap ++ more = rest → Gap lineStart gap more →
      Gap lineStart (front ++ gap) more)
    (h : Segmented mode (before ++ front) lineStart ts rest) :
    Segmented mode before lineStart ts (front ++ rest) := by
  cases h with
  | finish hrest hks =>
      rw [List.append_assoc]
      exact .finish (hgap rest [] (List.append_nil rest) hrest) hks
  | @token _ gap w rest _ _ _ _ hrest hks hlexeme hdenotes hlongest hline hcolumn h =>
      rw [List.append_assoc before] at hline hcolumn h
      rw [← List.append_assoc front]
      exact .token (hgap gap (w ++ rest) rfl hrest) hks hlexeme hdenotes hlongest hline hcolumn h

/-- Indents and dedents, and the blanks that caused them, go in front of a token. -/
theorem settle {blanks : List Char} {c : Char} {ks : List Kind}
    (hblanks : ∀ b ∈ blanks, Piece.isBlank b) (hlead : Piece.Leads c)
    (hks : ∀ k ∈ ks, k = .indent ∨ k = .dedent)
    (h : Segmented mode (before ++ blanks) false ts (c :: rest)) :
    Segmented mode before true (ks.map (Token.layout · (Position.behind before).margin) ++ ts)
      (blanks ++ c :: rest) := by
  have hhead : ∀ d ∈ (c :: rest).head?, ¬ Piece.isBlank d ∧ d ≠ '#' := by
    rintro d ⟨rfl⟩
    exact ⟨hlead.1, hlead.2.2⟩
  have hnewline : '\n' ∉ blanks := fun hmem ↦ absurd (hblanks _ hmem) (by decide)
  generalize hcs : c :: rest = cs at h hhead ⊢
  cases h with
  | finish hgap _ =>
      have hnil := hgap.eq_nil_of_head? (by simpa using hhead)
      simp [hnil] at hcs
  | @token _ gap w rest _ ks' t ts hgap hks' hlexeme hdenotes hlongest hline hcolumn h =>
      obtain rfl := hgap.eq_nil_of_head? hhead
      have hnone : ks' = [] := List.eq_nil_iff_forall_not_mem.mpr fun k hk ↦ nomatch (hks' k hk).1
      rw [List.append_nil] at hline hcolumn h
      have hmargin : (Position.behind before).margin = ⟨t.position.line, 1⟩ :=
        Position.margin_behind (by rw [hline, Position.breaks_append hnewline])
      rw [hnone, hmargin, List.nil_append (w ++ rest)]
      exact .token (.blanks hblanks) (fun k hk ↦ ⟨rfl, hks k hk⟩) hlexeme hdenotes hlongest hline
        hcolumn h

end Segmented

namespace Scan

variable {mode : Mode} {s t : Scan} {xs ts : List Token} {before : List Char}

/-- A step reads what is in front of the text that it leaves. -/
theorem Step.exists_front (h : Step mode s xs t) : ∃ front,
    s.reader.rest = front ++ t.reader.rest ∧
      t.reader.position = s.reader.position.pastAll front := by
  cases h with
  | @drop r l line rest hrest _ =>
      refine ⟨line ++ ['\n'], ?_, rfl⟩
      rw [List.append_assoc]
      exact hrest
  | @dropLast r l _ _ => exact ⟨r.rest, (List.append_nil _).symm, rfl⟩
  | @settle r l blanks _ _ hrest _ _ _ => exact ⟨blanks, hrest, rfl⟩
  | @piece r l c cs p _ hrest hpiece _ =>
      exact ⟨p.lexeme, hrest.trans (Piece.at?_append hpiece).symm, rfl⟩

/-- What one step adds goes in front of what the scan after it makes. -/
theorem Step.segmented (h : Step mode s xs t) (hs : s.reader.position = .behind before)
    (hlength : (before ++ s.reader.rest).length < 2 ^ 32)
    (ht : ∀ front, s.reader.rest = front ++ t.reader.rest →
      Segmented mode (before ++ front) t.lineStart ts t.reader.rest) :
    Segmented mode before s.lineStart (xs ++ ts) s.reader.rest := by
  cases h with
  | @drop r l line rest hrest hidle =>
      have hfront : r.rest = (line ++ ['\n']) ++ rest := by simp [hrest]
      show Segmented mode before true ts r.rest
      rw [hfront]
      refine Segmented.prepend (fun gap more _ hgap ↦ ?_) (ht _ hfront)
      rw [List.append_assoc, List.singleton_append]
      exact .line hidle hgap
  | @dropLast r l hrest hidle =>
      show Segmented mode before true ts r.rest
      have hseg := ht r.rest (List.append_nil _).symm
      rw [← List.append_nil r.rest]
      refine Segmented.prepend (fun gap more hnil _ ↦ ?_) hseg
      obtain ⟨rfl, rfl⟩ := List.append_eq_nil_iff.mp hnil
      rw [List.append_nil]
      obtain ⟨blanks, note, hline, hblanks, rfl | ⟨comment, rfl, hcomment⟩⟩ := hidle
      · rw [hline, List.append_nil]
        exact .blanks hblanks
      · rw [hline]
        exact .comment hblanks hcomment nofun
  | @settle r l blanks rest c hrest hblanks hlead _ =>
      show Segmented mode before true _ r.rest
      rw [hrest, show r.position = _ from hs]
      exact .settle hblanks hlead (fun k hk ↦ kind_of_mem_settle hk) (ht blanks hrest)
  | @piece r l c cs p token hrest hpiece htoken =>
      have hfront : r.rest = p.lexeme ++ p.rest := hrest.trans (Piece.at?_append hpiece).symm
      show Segmented mode before false _ r.rest
      rw [hfront]
      have hseg : Segmented mode (before ++ p.lexeme) (decide (p.shape = .lineBreak)) ts p.rest :=
        ht p.lexeme hfront
      have hne := Piece.at?_lexeme_ne_nil hpiece
      cases token with
      | none =>
          have hshape : decide (p.shape = .lineBreak) = false := by
            rcases Piece.token?_cases htoken with ⟨hshape | hshape, -⟩ | ⟨-, t, ht, -⟩ |
              ⟨-, t, ht, -⟩
            · rw [hshape]
              rfl
            · rw [hshape]
              rfl
            · cases ht
            · cases ht
          rw [hshape] at hseg
          refine Segmented.prepend (fun gap more hmore hgap ↦ ?_) hseg
          rcases Piece.lexeme_of_token?_eq_none hpiece htoken with hblanks |
            ⟨comment, hlexeme, hcomment, hrest⟩
          · exact hgap.append_blanks hblanks
          · have hhead : ∀ d ∈ (gap ++ more).head?, ¬ Piece.isBlank d ∧ d ≠ '#' := by
              intro d hd
              rw [hmore] at hd
              rw [hrest d hd]
              decide
            obtain rfl := hgap.eq_nil_of_head? hhead
            rw [← hmore, List.nil_append] at hrest
            rw [List.append_nil, hlexeme]
            show Gap false ([] ++ '#' :: comment) more
            exact .comment nofun hcomment hrest
      | some t =>
          obtain ⟨hlexeme, hposition⟩ := Piece.token?_lexeme htoken
          obtain ⟨hdenotes, hlongest⟩ := Piece.denotes_of_at? hpiece htoken
          have hstart : decide (p.shape = .lineBreak) = decide (t.kind = .newline) := by
            rcases Piece.token?_cases htoken with ⟨-, ht⟩ | ⟨hshape, u, ht, hu⟩ |
              ⟨hshape, u, ht, hu⟩
            · cases ht
            · cases ht
              simp [hshape, hu]
            · cases ht
              simp [hshape, hu.ne_newline]
          have hshort : before.length + 1 < 2 ^ 32 := by
            have hpos := List.length_pos_iff.mpr hne
            rw [show r.rest = _ from hfront, List.length_append, List.length_append] at hlength
            omega
          obtain ⟨hline, hcolumn⟩ := Position.toNat_behind hshort
          rw [← show r.position = _ from hs, ← hposition] at hline hcolumn
          have hgap : Gap false [] (p.lexeme ++ p.rest) :=
            .blanks fun _ hc ↦ absurd hc List.not_mem_nil
          have hnone : ∀ k ∈ [], false = true ∧ (k = Kind.indent ∨ k = Kind.dedent) :=
            fun _ hk ↦ absurd hk List.not_mem_nil
          exact .token hgap hnone hlexeme hdenotes hlongest (by simpa using hline)
            (by simpa using hcolumn) (by simpa [hstart] using hseg)

/-- The tokens that a scan still makes are those of the text that it still has. -/
theorem Reaches.segmented (h : Reaches mode s xs t) (hend : t.reader.rest = [])
    (hs : s.reader.position = .behind before)
    (hlength : (before ++ s.reader.rest).length < 2 ^ 32) :
    Segmented mode before s.lineStart (xs ++ t.finish) s.reader.rest := by
  induction h generalizing before with
  | refl s =>
      rw [hend, finish, hs, List.nil_append]
      have hgap : Gap s.lineStart [] [] := .blanks fun _ hc ↦ absurd hc List.not_mem_nil
      have hclose : ∀ k ∈ s.levels.close, k = .dedent := fun _ ↦ mem_close
      have hseg : Segmented mode before s.lineStart _ [] := .finish hgap hclose
      rwa [List.append_nil] at hseg
  | step hstep _ ih =>
      rw [List.append_assoc]
      obtain ⟨front, hfront, hposition⟩ := hstep.exists_front
      refine hstep.segmented hs hlength fun front' hfront' ↦ ?_
      obtain rfl := List.append_cancel_right (hfront'.symm.trans hfront)
      refine ih hend ?_ ?_
      · rw [hposition, hs, Position.pastAll_behind]
      · rwa [List.append_assoc, ← hfront']

end Scan

end Offside
