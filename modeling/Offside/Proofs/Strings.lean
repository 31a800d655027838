import Mathlib.Data.List.DropRight
import Mathlib.Data.Nat.Find
import Mathlib.Tactic.SplitIfs
import Offside.Proofs.Scan.Join
import Offside.Proofs.Scan.Reread

/-!
# Strings

A string ends at the first quote of its kind in front of which an even number of backslashes
stands, as each two of them stand for one and a single one makes the quote a part of the text.
Every text can be written between quotes, and what is read there is the text.
-/

namespace Offside

namespace Lexeme

/-- How a character of a text is written between two quotes. -/
def escapeChar (quote c : Char) : List Char :=
  if c = '\\' ∨ c = quote then ['\\', c]
  else if c = '\n' then ['\\', 'n']
  else if c = '\t' then ['\\', 't']
  else if c = '\r' then ['\\', 'r']
  else [c]

/-- How a text is written between two quotes. -/
def escape (quote : Char) (text : List Char) : List Char :=
  text.flatMap (escapeChar quote)

/-- The text that is written between two quotes. A backslash stands for nothing at the end, and
for one character together with the next one elsewhere. -/
def decoded : List Char → List Char
  | [] => []
  | ['\\'] => []
  | '\\' :: c :: cs =>
      (if c = 'n' then '\n' else if c = 't' then '\t' else if c = 'r' then '\r' else c) ::
        decoded cs
  | c :: cs => c :: decoded cs

/-- How many backslashes there are at the end. -/
def slashes (cs : List Char) : Nat :=
  (cs.rtakeWhile (· = '\\')).length

/-- Behind `body` stands a quote that closes a string, and `rest` behind it. -/
structure Unescaped (quote : Char) (cs body rest : List Char) : Prop where
  split : cs = body ++ quote :: rest
  even : Even (slashes body)

/-- The same, and no quote further in front closes a string. -/
structure EndsAt (quote : Char) (cs body rest : List Char) : Prop
    extends Unescaped quote cs body rest where
  first : ∀ body' rest', Unescaped quote cs body' rest' → body.length ≤ body'.length

variable {quote c : Char} {cs body rest text : List Char}

theorem slashes_cons_of_ne (hc : c ≠ '\\') (cs : List Char) : slashes (c :: cs) = slashes cs := by
  simp only [slashes, List.rtakeWhile, List.reverse_cons, List.takeWhile_append,
    List.length_reverse]
  split
  · next hall => simp [hc, hall]
  · rfl

/-- Whatever a backslash makes of the next character, the two leave the parity as it is. -/
theorem even_slashes_escape (c : Char) (cs : List Char) :
    Even (slashes ('\\' :: c :: cs)) ↔ Even (slashes cs) := by
  simp only [slashes, List.rtakeWhile, List.reverse_cons, List.append_assoc, List.takeWhile_append,
    List.length_reverse]
  split
  · next hall =>
      by_cases hc : c = '\\'
      · simp [hc, hall, Nat.even_add]
      · simp [hc, hall]
  · rfl

theorem Unescaped.escape (c : Char) (h : Unescaped quote cs body rest) :
    Unescaped quote ('\\' :: c :: cs) ('\\' :: c :: body) rest :=
  ⟨congrArg ('\\' :: c :: ·) h.split, (even_slashes_escape c body).mpr h.even⟩

theorem Unescaped.cons_of_ne (hc : c ≠ '\\') (h : Unescaped quote cs body rest) :
    Unescaped quote (c :: cs) (c :: body) rest :=
  ⟨congrArg (c :: ·) h.split, (slashes_cons_of_ne hc body) ▸ h.even⟩

theorem Unescaped.head (quote : Char) (rest : List Char) :
    Unescaped quote (quote :: rest) [] rest :=
  ⟨rfl, Even.zero⟩

theorem ne_backslash_of_cons (hlone : c = '\\' → cs = [] → False)
    (hescape : ∀ d ds, c = '\\' → cs = d :: ds → False) : c ≠ '\\' := by
  intro hc
  cases cs with
  | nil => exact hlone hc rfl
  | cons d ds => exact hescape d ds hc rfl

/-- A text in which no quote closes a string, with no backslash left over at its end, stands between
quotes for what it is read as. -/
theorem decodes_of_even (heven : Even (slashes cs))
    (hopen : ∀ body rest, ¬ Unescaped quote cs body rest) : Decodes quote cs (decoded cs) := by
  fun_induction decoded cs with
  | case1 => exact .nil
  | case2 => exact absurd heven (by decide)
  | case3 c cs ih =>
      refine .escape (ih ((even_slashes_escape c cs).mp heven) fun body rest h ↦ ?_)
      exact hopen _ _ (h.escape c)
  | case4 c cs hlone hescape ih =>
      have hc := ne_backslash_of_cons hlone hescape
      have hquote : c ≠ quote := by
        rintro rfl
        exact hopen _ _ (.head c cs)
      refine .plain hquote hc (ih (slashes_cons_of_ne hc cs ▸ heven) fun body rest h ↦ ?_)
      exact hopen _ _ (h.cons_of_ne hc)

theorem EndsAt.decodes (h : EndsAt quote cs body rest) : Decodes quote body (decoded body) := by
  refine decodes_of_even h.even fun body' rest' h' ↦ ?_
  have hbody := h'.split
  have hle := h.first body' (rest' ++ quote :: rest) ⟨by simp [h.split, hbody], h'.even⟩
  have hlength := congrArg List.length hbody
  rw [List.length_append, List.length_cons] at hlength
  omega

/-- If any quote closes a string, one is the first of them. -/
theorem Unescaped.exists_endsAt (h : Unescaped quote cs body rest) :
    ∃ body rest, EndsAt quote cs body rest := by
  classical
  have hsome : ∃ n body rest, Unescaped quote cs body rest ∧ body.length = n :=
    ⟨_, body, rest, h, rfl⟩
  obtain ⟨body, rest, hfirst, hlength⟩ := Nat.find_spec hsome
  refine ⟨body, rest, hfirst, fun body' rest' h' ↦ ?_⟩
  rw [hlength]
  exact Nat.find_min' hsome ⟨body', rest', h', rfl⟩

theorem unescape_of_isQuote (hquote : Piece.isQuote quote) : Piece.unescape quote = quote := by
  obtain rfl | rfl : quote = '\'' ∨ quote = '\"' := by simpa [Piece.isQuote] using hquote
  all_goals rfl

/-- A character is written as itself, or else as a backslash and a character that the two of them
stand for. -/
theorem escapeChar_cases (hquote : Piece.isQuote quote) (c : Char) :
    (∃ d, escapeChar quote c = ['\\', d] ∧ Piece.unescape d = c) ∨
      escapeChar quote c = [c] ∧ c ≠ quote ∧ c ≠ '\\' := by
  unfold escapeChar
  split_ifs with hself hfeed htab hreturn
  · refine .inl ⟨c, rfl, ?_⟩
    rcases hself with rfl | rfl
    · rfl
    · exact unescape_of_isQuote hquote
  · exact .inl ⟨'n', rfl, hfeed.symm⟩
  · exact .inl ⟨'t', rfl, htab.symm⟩
  · exact .inl ⟨'r', rfl, hreturn.symm⟩
  · exact .inr ⟨rfl, fun h ↦ hself (.inr h), fun h ↦ hself (.inl h)⟩

/-- What is written for a text stands for the text. -/
theorem decodes_escape (hquote : Piece.isQuote quote) (text : List Char) :
    Decodes quote (escape quote text) text := by
  induction text with
  | nil => exact .nil
  | cons c text ih =>
      rw [escape, List.flatMap_cons]
      rcases escapeChar_cases hquote c with ⟨d, hc, rfl⟩ | ⟨hc, hne, hescape⟩
      · rw [hc]
        exact .escape ih
      · rw [hc]
        exact .plain hne hescape ih

end Lexeme

namespace Piece

open Lexeme

variable {quote : Char} {cs body rest text : List Char}

/-- A string without a quote that closes it takes all that is left. -/
theorem stringFrom_of_open (hquote : quote ≠ '\\')
    (hopen : ∀ body rest, ¬ Unescaped quote cs body rest) (value lexeme : List Char) :
    stringFrom quote value lexeme cs =
      ⟨.string (value.reverse ++ decoded cs) false, lexeme.reverse ++ cs, []⟩ := by
  fun_induction decoded cs generalizing value lexeme with
  | case1 => simp [stringFrom]
  | case2 => simp [stringFrom, hquote.symm]
  | case3 c cs ih =>
      rw [stringFrom, if_neg hquote.symm, if_pos rfl]
      simp [unescape, ih fun body rest h ↦ hopen _ _ (h.escape c)]
  | case4 c cs hlone hescape ih =>
      have hc := ne_backslash_of_cons hlone hescape
      have hne : c ≠ quote := by
        rintro rfl
        exact hopen _ _ (.head c cs)
      rw [stringFrom.eq_def]
      simp [hne, hc, ih fun body rest h ↦ hopen _ _ (h.cons_of_ne hc)]

theorem at?_of_isQuote (hquote : isQuote quote) (cs : List Char) :
    at? quote cs = some (stringFrom quote [] [quote] cs) := by
  rw [at?_of_leads (leads_of_isQuote hquote), if_neg (quote_starts hquote).2.1, if_pos hquote]

/-- What stands for a text between two quotes is cut as a string of that text. -/
theorem at?_of_decodes (hquote : isQuote quote) (h : Decodes quote body text) (rest : List Char) :
    at? quote (body ++ quote :: rest) =
      some ⟨.string text true, quote :: body ++ [quote], rest⟩ := by
  rw [at?_of_isQuote hquote, stringFrom_of_decodes h (ne_backslash_of_isQuote hquote)]
  rfl

theorem at?_of_open (hquote : isQuote quote)
    (hopen : ∀ body rest, ¬ Unescaped quote cs body rest) :
    at? quote cs = some ⟨.string (decoded cs) false, quote :: cs, []⟩ := by
  rw [at?_of_isQuote hquote, stringFrom_of_open (ne_backslash_of_isQuote hquote) hopen]
  rfl

end Piece

namespace Scan

variable {mode : Mode} {s t : Scan} {xs found : List Token} {c : Char} {cs : List Char}

/-- At a line without indentation and with no level open, a scan goes on in the line. -/
theorem run_lineStart (hlead : Piece.Leads c) (position : Position) :
    run mode ⟨⟨c :: cs, position⟩, .margin, true⟩ found =
      run mode ⟨⟨c :: cs, position⟩, .margin, false⟩ found := by
  have hsettle : Levels.margin.settle 0 = ([], .margin) := settle_zero (List.forall_mem_nil _)
  have hrest : c :: cs = [] ++ c :: cs := rfl
  have hstep : Step mode ⟨⟨c :: cs, position⟩, .margin, true⟩ []
      ⟨⟨c :: cs, position⟩, .margin, false⟩ :=
    .settle hrest (List.forall_mem_nil _) hlead fun _ ↦ rfl
  exact run_of_step rfl (hstep.step_eq rfl)

/-- What a scan that has found some tokens comes to behind a string that stands for `text`. -/
def behindString (mode : Mode) (levels : Levels) (found : List Token) (position : Position)
    (lexeme text rest : List Char) : Except Fault (List Token) :=
  run mode ⟨⟨rest, position.pastAll lexeme⟩, levels, false⟩
    (⟨.string, .ofList lexeme, some (.text (.ofList text)), position⟩ :: found)

section

variable {quote : Char} (hquote : Piece.isQuote quote) {levels : Levels} {lineStart : Bool}
  (hstart : lineStart = true → levels = .margin) (position : Position) (found : List Token)

include hquote hstart

theorem run_of_isQuote (cs : List Char) :
    run mode ⟨⟨quote :: cs, position⟩, levels, lineStart⟩ found =
      run mode ⟨⟨quote :: cs, position⟩, levels, false⟩ found := by
  cases lineStart with
  | false => rfl
  | true =>
      rw [hstart rfl]
      exact run_lineStart (Piece.leads_of_isQuote hquote) position

theorem run_of_string {cs lexeme text rest : List Char} {closed : Bool}
    (hpiece : Piece.at? quote cs = some ⟨.string text closed, lexeme, rest⟩)
    (hmode : closed = true ∨ mode = .lenient) :
    run mode ⟨⟨quote :: cs, position⟩, levels, lineStart⟩ found =
      behindString mode levels found position lexeme text rest := by
  have htoken : Piece.token? mode position ⟨.string text closed, lexeme, rest⟩ =
      .ok (some ⟨.string, .ofList lexeme, some (.text (.ofList text)), position⟩) := by
    rcases hmode with rfl | rfl
    · rfl
    · cases closed <;> rfl
  have hstep : Step mode ⟨⟨quote :: cs, position⟩, levels, false⟩ _ _ :=
    .piece rfl hpiece htoken
  rw [run_of_isQuote hquote hstart, run_of_step rfl (hstep.step_eq rfl)]
  rfl

end

end Scan

open Lexeme

/-- Within a line, or where nothing is indented at the start of one, a text that is written between
quotes is read as one string and the scan goes on behind it. Behind any quote a string ends at the
first quote of its kind that is not escaped, or else with the source, which is a fault in strict
mode. -/
theorem run_quoted {quote : Char} (hquote : Piece.isQuote quote) {levels : Levels}
    {lineStart : Bool} (hstart : lineStart = true → levels = .margin) (position : Position)
    (found : List Token) :
    (∀ mode text rest, Scan.run mode
        ⟨⟨quote :: (escape quote text ++ quote :: rest), position⟩, levels, lineStart⟩ found =
      Scan.behindString mode levels found position (quote :: escape quote text ++ [quote]) text
        rest) ∧
    ∀ cs, let s : Scan := ⟨⟨quote :: cs, position⟩, levels, lineStart⟩
      (∃ body rest, EndsAt quote cs body rest ∧ ∀ mode, s.run mode found =
        Scan.behindString mode levels found position (quote :: body ++ [quote]) (decoded body)
          rest) ∨
      (∀ body rest, ¬ Unescaped quote cs body rest) ∧
        s.run .lenient found =
          Scan.behindString .lenient levels found position (quote :: cs) (decoded cs) [] ∧
        s.run .strict found = .error ⟨.unterminatedString, position⟩ := by
  constructor
  · intro mode text rest
    have hpiece := Piece.at?_of_decodes hquote (decodes_escape hquote text) rest
    exact Scan.run_of_string hquote hstart position found hpiece (.inl rfl)
  intro cs
  by_cases hclosed : ∃ body rest, Unescaped quote cs body rest
  · obtain ⟨body, rest, h⟩ := hclosed
    obtain ⟨body, rest, hends⟩ := h.exists_endsAt
    refine .inl ⟨body, rest, hends, fun mode ↦ ?_⟩
    have hpiece := Piece.at?_of_decodes hquote hends.decodes rest
    rw [← hends.split] at hpiece
    exact Scan.run_of_string hquote hstart position found hpiece (.inl rfl)
  · simp only [not_exists] at hclosed
    have hpiece := Piece.at?_of_open hquote hclosed
    refine .inr ⟨hclosed, Scan.run_of_string hquote hstart position found hpiece (.inr rfl), ?_⟩
    rw [Scan.run_of_isQuote hquote hstart]
    refine Scan.run_of_step_error rfl ?_
    simp [Scan.step, Scan.readPiece, hpiece, Piece.token?, Mode.isStrict]

/-- A quote of the same kind, a backslash and a line break between quotes, with a mark behind. -/
theorem run_quoted_escapes :
    let text := ['\'', '\\', '\n']
    let source := "'\\'\\\\\\n'+"
    Piece.isQuote '\'' ∧ (true = true → Levels.margin = .margin) ∧
      escape '\'' text = ['\\', '\'', '\\', '\\', '\\', 'n'] ∧
      ∀ mode, scan mode source =
        Scan.behindString mode .margin [] .start ('\'' :: escape '\'' text ++ ['\'']) text
          ['+'] := by
  intro text source
  have hquote : Piece.isQuote '\'' := rfl
  have hstart : true = true → Levels.margin = .margin := fun _ ↦ rfl
  have hsource : Scan.start source =
      ⟨⟨'\'' :: (escape '\'' text ++ ['\'', '+']), .start⟩, .margin, true⟩ := by
    decide
  refine ⟨hquote, hstart, rfl, fun mode ↦ ?_⟩
  rw [scan, hsource]
  exact (run_quoted hquote hstart .start []).1 mode text ['+']

end Offside
