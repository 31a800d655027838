import Offside.Proofs.Scan.Lexeme

/-!
# A lexeme read again

A lexeme is cut off whole again wherever a blank, a line break or the end of the text stands behind
it, and its token says the same.
-/

namespace Offside

/-- The text goes on with a blank or a line break, if at all. -/
def Separates (rest : List Char) : Prop :=
  ∀ d ∈ rest.head?, d = ' ' ∨ d = '\n'

namespace Separates

variable {rest : List Char}

theorem nil : Separates [] :=
  nofun

theorem blank (cs : List Char) : Separates (' ' :: cs) := by
  rintro d ⟨rfl⟩
  exact .inl rfl

theorem newline (cs : List Char) : Separates ('\n' :: cs) := by
  rintro d ⟨rfl⟩
  exact .inr rfl

variable {p : Char → Bool} (h : Separates rest) (hblank : p ' ' = false) (hbreak : p '\n' = false)

include h hblank hbreak

theorem not_of_head? {d : Char} (hd : d ∈ rest.head?) : ¬ p d := by
  rcases h d hd with rfl | rfl
  · simp [hblank]
  · simp [hbreak]

theorem takeWhile_append {cs : List Char} (hcs : ∀ c ∈ cs, p c) :
    (cs ++ rest).takeWhile p = cs := by
  rw [List.takeWhile_append_of_pos hcs]
  cases rest with
  | nil => exact List.append_nil cs
  | cons d rest =>
      rw [List.takeWhile_cons_of_neg (h.not_of_head? hblank hbreak rfl), List.append_nil]

theorem dropWhile_append {cs : List Char} (hcs : ∀ c ∈ cs, p c) :
    (cs ++ rest).dropWhile p = rest := by
  rw [List.dropWhile_append_of_pos hcs]
  cases rest with
  | nil => rfl
  | cons d rest => rw [List.dropWhile_cons_of_neg (h.not_of_head? hblank hbreak rfl)]

end Separates

namespace Piece

open Lexeme

variable {c : Char} {cs rest : List Char}

theorem leads_of_isDigit (h : c.isDigit) : Leads c := by
  refine ⟨?_, ?_, ?_⟩
  · intro hblank
    simp only [isBlank, Bool.or_eq_true, decide_eq_true_eq, or_assoc] at hblank
    rcases hblank with rfl | rfl | rfl <;> exact absurd h (by decide)
  all_goals
    rintro rfl
    exact absurd h (by decide)

theorem leads_of_isQuote (h : isQuote c) : Leads c := by
  obtain rfl | rfl : c = '\'' ∨ c = '\"' := by simpa [isQuote] using h
  all_goals exact ⟨by decide, by decide, by decide⟩

theorem leads_of_startsWord (h : startsWord c) : Leads c := by
  have hall : [' ', '\t', '\r', '\n', '#'].all fun c ↦ ¬ startsWord c := by decide +kernel
  have hnot {d : Char} (hd : d ∈ [' ', '\t', '\r', '\n', '#']) : c ≠ d := by
    rintro rfl
    exact of_decide_eq_true (List.all_eq_true.mp hall c hd) h
  refine ⟨fun hblank ↦ ?_, hnot (by simp), hnot (by simp)⟩
  simp only [isBlank, Bool.or_eq_true, decide_eq_true_eq, or_assoc] at hblank
  rcases hblank with hc | hc | hc <;> exact hnot (by simp) hc

theorem exists_leads_of_mark (m : Mark) : ∃ c cs, m.spelling.toList = c :: cs ∧ Leads c := by
  cases m <;> exact ⟨_, _, rfl, by decide, by decide, by decide⟩

/-- A mark of one character is not read together with a blank or a line break. -/
theorem mark_single {m : Mark} (h : m.spelling.toList = [c]) :
    Mark.ofChar? c = some m ∧ Mark.ofPair? c ' ' = none ∧ Mark.ofPair? c '\n' = none := by
  have hall : Mark.all.all fun m ↦ m.spelling.toList.tail = [] →
      m.spelling.toList.head?.all fun c ↦
        Mark.ofChar? c = some m ∧ Mark.ofPair? c ' ' = none ∧ Mark.ofPair? c '\n' = none := by
    decide +kernel
  have hm := of_decide_eq_true (List.all_eq_true.mp hall m m.mem_all)
  rw [h] at hm
  exact of_decide_eq_true (hm rfl)

theorem stringFrom_of_decodes {quote : Char} {body text : List Char} (h : Decodes quote body text)
    (hquote : quote ≠ '\\') (value lexeme rest : List Char) :
    stringFrom quote value lexeme (body ++ quote :: rest) =
      ⟨.string (value.reverse ++ text) true, lexeme.reverse ++ (body ++ [quote]), rest⟩ := by
  induction h generalizing value lexeme with
  | nil =>
      rw [List.nil_append, stringFrom.eq_def]
      simp
  | escape _ ih =>
      rw [List.cons_append, List.cons_append, stringFrom.eq_def]
      simp [hquote.symm, ih]
  | plain hne hescape _ ih =>
      rw [List.cons_append, stringFrom.eq_def]
      simp [hne, hescape, ih]

theorem numeral_of_isWhole (h : IsWhole (c :: cs)) (hrest : Separates rest) :
    numeral c (cs ++ rest) = ⟨.integer, c :: cs, rest⟩ := by
  have hdigits : ∀ d ∈ cs, d.isDigit := fun d hd ↦ h.2 d (List.mem_cons_of_mem c hd)
  have htake := hrest.takeWhile_append (p := Char.isDigit) (by decide) (by decide) hdigits
  have hdrop := hrest.dropWhile_append (p := Char.isDigit) (by decide) (by decide) hdigits
  simp only [numeral, htake, hdrop]
  cases rest with
  | nil => rfl
  | cons d rest => rcases hrest d rfl with rfl | rfl <;> rfl

theorem numeral_of_isDecimal {places : List Char} (hwhole : IsWhole (c :: cs))
    (hplaces : ∀ d ∈ places, d.isDigit) (hrest : Separates rest) :
    numeral c (cs ++ '.' :: places ++ rest) = ⟨.decimal, c :: cs ++ '.' :: places, rest⟩ := by
  have hdigits : ∀ d ∈ cs, d.isDigit := fun d hd ↦ hwhole.2 d (List.mem_cons_of_mem c hd)
  have htake : (cs ++ '.' :: places ++ rest).takeWhile Char.isDigit = cs := by
    rw [List.append_assoc, List.takeWhile_append_of_pos hdigits, List.cons_append,
      List.takeWhile_cons_of_neg (by decide), List.append_nil]
  have hdrop : (cs ++ '.' :: places ++ rest).dropWhile Char.isDigit = '.' :: (places ++ rest) := by
    rw [List.append_assoc, List.dropWhile_append_of_pos hdigits, List.cons_append,
      List.dropWhile_cons_of_neg (by decide)]
  have hplaces' := hrest.takeWhile_append (p := Char.isDigit) (by decide) (by decide) hplaces
  have hrest' := hrest.dropWhile_append (p := Char.isDigit) (by decide) (by decide) hplaces
  simp only [numeral, htake, hdrop, hplaces', hrest']

theorem run_of_isWord (hcs : ∀ d ∈ cs, continuesWord d) (hrest : Separates rest) :
    run .word continuesWord c (cs ++ rest) = ⟨.word, c :: cs, rest⟩ := by
  have hblank : continuesWord ' ' = false := by decide +kernel
  have hbreak : continuesWord '\n' = false := by decide +kernel
  rw [run, hrest.takeWhile_append hblank hbreak hcs, hrest.dropWhile_append hblank hbreak hcs]

/-- What a text begins with, if its first character can be the first one of a token. -/
theorem at?_of_leads (h : Leads c) : at? c cs =
    if c.isDigit then some (numeral c cs)
    else if isQuote c then some (stringFrom c [] [c] cs)
    else if startsWord c then some (run .word continuesWord c cs)
    else mark? c cs := by
  obtain ⟨hblank, hbreak, hnote⟩ := h
  simp [at?, hblank, hbreak, hnote]

theorem at?_of_isWord {w : List Char} (h : IsWord w) (hrest : Separates rest) :
    ∃ c cs, w = c :: cs ∧ Leads c ∧ at? c (cs ++ rest) = some ⟨.word, w, rest⟩ := by
  obtain ⟨c, cs, rfl, hc, hcs⟩ := h
  have hdigit : ¬ c.isDigit := fun hdigit ↦ (digit_starts hdigit).1 hc
  have hquote : ¬ isQuote c := fun hquote ↦ (quote_starts hquote).1 hc
  refine ⟨c, cs, rfl, leads_of_startsWord hc, ?_⟩
  rw [at?_of_leads (leads_of_startsWord hc), if_neg hdigit, if_neg hquote, if_pos hc,
    run_of_isWord hcs hrest]

theorem at?_of_mark {m : Mark} (h : m.spelling.toList = c :: cs) (hrest : Separates rest) :
    at? c (cs ++ rest) = some ⟨.mark m, c :: cs, rest⟩ := by
  obtain ⟨d, ds, hd, hlead⟩ := exists_leads_of_mark m
  obtain ⟨rfl, rfl⟩ := List.cons.inj (h.symm.trans hd)
  obtain ⟨hword, hdigit, hquote, -⟩ := mark_starts h
  rw [at?_of_leads hlead, if_neg hdigit, if_neg hquote, if_neg hword]
  cases cs with
  | nil =>
      obtain ⟨hsingle, hblank, hbreak⟩ := mark_single h
      cases rest with
      | nil => simp [mark?, hsingle]
      | cons d rest => rcases hrest d rfl with rfl | rfl <;> simp [mark?, hsingle, hblank, hbreak]
  | cons d ds =>
      obtain ⟨rfl, hpair⟩ := mark_pair h
      simp [mark?, hpair]

/-- The lexeme of a token is cut off as the same token again. -/
theorem at?_of_denotes {before w : List Char} {k : Kind} {l : Option Literal}
    (h : Denotes .strict before k w l) (hk : k.IsInk) (hrest : Separates rest) :
    ∃ c cs shape, w = c :: cs ∧ Leads c ∧ at? c (cs ++ rest) = some ⟨shape, w, rest⟩ ∧
      ∀ position, token? .strict position ⟨shape, w, rest⟩ =
        .ok (some ⟨k, String.ofList w, l, position⟩) := by
  cases h with
  | newline => exact absurd hk id
  | unfinished _ _ hmode _ _ _ => cases hmode
  | integer hwhole =>
      obtain ⟨c, cs, rfl⟩ := List.exists_cons_of_ne_nil hwhole.1
      have hdigit := hwhole.2 c List.mem_cons_self
      refine ⟨c, cs, .integer, rfl, leads_of_isDigit hdigit, ?_, fun position ↦ ?_⟩
      · rw [at?_of_leads (leads_of_isDigit hdigit), if_pos hdigit,
          numeral_of_isWhole hwhole hrest]
      · simp only [token?, integer?_of_isWhole hwhole]
        rfl
  | float hdecimal hx =>
      have hvalue := double?_of_rounds hdecimal hx
      obtain ⟨hwhole, hplaces, rfl⟩ := hdecimal
      obtain ⟨c, cs, rfl⟩ := List.exists_cons_of_ne_nil hwhole.1
      have hdigit := hwhole.2 c List.mem_cons_self
      refine ⟨c, _, .decimal, rfl, leads_of_isDigit hdigit, ?_, fun position ↦ ?_⟩
      · rw [at?_of_leads (leads_of_isDigit hdigit), if_pos hdigit]
        exact congrArg some (numeral_of_isDecimal hwhole hplaces hrest)
      · simp only [token?, hvalue]
  | @string quote body text hquote hbody =>
      obtain ⟨-, hdigit, hescape⟩ := quote_starts hquote
      refine ⟨quote, body ++ [quote], .string text true, rfl, leads_of_isQuote hquote, ?_,
        fun position ↦ rfl⟩
      rw [at?_of_leads (leads_of_isQuote hquote), if_neg hdigit, if_pos hquote, List.append_assoc,
        List.singleton_append, stringFrom_of_decodes hbody hescape]
      rfl
  | identifier hword hfree =>
      obtain ⟨c, cs, rfl, hlead, hcut⟩ := at?_of_isWord hword hrest
      refine ⟨c, cs, .word, rfl, hlead, hcut, fun position ↦ ?_⟩
      have hnone : Keyword.ofWord? (String.ofList (c :: cs)) = none := by
        refine Option.eq_none_iff_forall_ne_some.mpr fun k hk ↦ hfree k ?_
        rw [Keyword.spelling_of_ofWord? hk, String.toList_ofList]
      simp only [token?, hnone]
  | keyword hword k hk =>
      obtain ⟨c, cs, rfl, hlead, hcut⟩ := at?_of_isWord hword hrest
      refine ⟨c, cs, .word, rfl, hlead, hcut, fun position ↦ ?_⟩
      have hkeyword := k.ofWord?_spelling
      rw [← String.ofList_toList (s := k.spelling), hk] at hkeyword
      simp only [token?, hkeyword]
  | mark m hm =>
      subst hm
      obtain ⟨c, cs, hw, hlead⟩ := exists_leads_of_mark m
      rw [hw]
      exact ⟨c, cs, .mark m, rfl, hlead, at?_of_mark hw hrest, fun _ ↦ rfl⟩

/-- The mode only matters to a string that is not closed. -/
theorem token?_of_closed {p : Piece} (h : ∀ text, p.shape ≠ .string text false) (mode : Mode)
    (position : Position) : p.token? .strict position = p.token? mode position := by
  unfold token?
  cases hshape : p.shape with
  | string text closed =>
      cases closed with
      | true => rfl
      | false => exact absurd hshape (h text)
  | _ => rfl

end Piece
end Offside
