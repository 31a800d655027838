import Mathlib.Data.Nat.Digits.Lemmas
import Mathlib.Tactic.IntervalCases
import Mathlib.Tactic.SplitIfs
import Offside.Proofs.Number.Nearest
import Offside.Proofs.Scan.Extend

/-!
# Lexemes

The classes of lexemes as sets of words, what a token of each class denotes, and that the pieces
of a line are the longest words of their classes.
-/

namespace Offside

namespace Lexeme

/-- Letters, numerals and underscores without a numeral in front. -/
def IsWord (w : List Char) : Prop :=
  ∃ c cs, w = c :: cs ∧ Piece.startsWord c ∧ ∀ d ∈ cs, Piece.continuesWord d

def IsWhole (w : List Char) : Prop :=
  w ≠ [] ∧ ∀ d ∈ w, d.isDigit

/-- The digits before and after a point; none are needed after it. -/
def IsDecimal (w whole places : List Char) : Prop :=
  IsWhole whole ∧ (∀ d ∈ places, d.isDigit) ∧ w = whole ++ '.' :: places

/-- What may stand between two quotes, and the text that it stands for. A backslash and the
character after it stand for one character. -/
inductive Decodes (quote : Char) : List Char → List Char → Prop
  | nil : Decodes quote [] []
  | escape {c : Char} {cs text : List Char} (h : Decodes quote cs text) :
      Decodes quote ('\\' :: c :: cs) (Piece.unescape c :: text)
  | plain {c : Char} {cs text : List Char} (hquote : c ≠ quote) (hescape : c ≠ '\\')
      (h : Decodes quote cs text) : Decodes quote (c :: cs) (c :: text)

inductive Class where
  | word | number | string | mark
  deriving DecidableEq

def Class.Has : Class → List Char → Prop
  | .word, w => IsWord w
  | .number, w => IsWhole w ∨ ∃ whole places, IsDecimal w whole places
  | .string, w => ∃ quote body text, Piece.isQuote quote ∧ Decodes quote body text ∧
      w = quote :: body ++ [quote]
  | .mark, w => ∃ m : Mark, w = m.spelling.toList

/-- No lexeme of any class starts where `w` does and goes on into the text `rest` behind it. -/
def Longest (w rest : List Char) : Prop :=
  ∀ more, more ≠ [] → more <+: rest → ∀ k : Class, ¬ k.Has (w ++ more)

/-- The number that digits denote. -/
def value (ds : List Char) : Nat :=
  Nat.ofDigits 10 (ds.reverse.map fun d ↦ d.toNat - '0'.toNat)

/-- A token of the text `rest` behind it has the lexeme, and the value that the lexeme denotes, of
its kind. Only lenient scanning takes a string that the end of the source cuts off. -/
inductive Denotes (mode : Mode) (rest : List Char) : Kind → List Char → Option Literal → Prop
  | newline : Denotes mode rest .newline ['\n'] none
  | integer {w : List Char} (h : IsWhole w) :
      Denotes mode rest .integer w (some (.integer (value w)))
  | float {w whole places : List Char} {x : Binary64} (h : IsDecimal w whole places)
      (hx : Binary64.Rounds false (value (whole ++ places) / 10 ^ places.length) x) :
      Denotes mode rest .float w (some (.float x))
  | string {quote : Char} {body text : List Char} (hquote : Piece.isQuote quote)
      (h : Decodes quote body text) :
      Denotes mode rest .string (quote :: body ++ [quote]) (some (.text (String.ofList text)))
  | unfinished {quote : Char} {body text : List Char} (hquote : Piece.isQuote quote)
      (h : Decodes quote body text) (hmode : mode = .lenient) (hrest : rest = []) (tail : List Char)
      (htail : tail = [] ∨ tail = ['\\']) :
      Denotes mode rest .string (quote :: body ++ tail) (some (.text (String.ofList text)))
  | identifier {w : List Char} (h : IsWord w) (hfree : ∀ k : Keyword, k.spelling.toList ≠ w) :
      Denotes mode rest .identifier w (some (.text (String.ofList w)))
  | keyword {w : List Char} (h : IsWord w) (k : Keyword) (hk : k.spelling.toList = w) :
      Denotes mode rest (.keyword k) w k.literal?
  | mark {w : List Char} (m : Mark) (hm : m.spelling.toList = w) :
      Denotes mode rest (.mark m) w none

end Lexeme

namespace Piece

/-- What the first piece of a text is, by its first character. -/
inductive Cut (c : Char) (cs : List Char) : Piece → Prop
  | blank (hblank : isBlank c) : Cut c cs (run .blank isBlank c cs)
  | lineBreak (hbreak : c = '\n') : Cut c cs ⟨.lineBreak, [c], cs⟩
  | comment (hnote : c = '#') : Cut c cs (run .comment (· ≠ '\n') c cs)
  | numeral (hdigit : c.isDigit) : Cut c cs (numeral c cs)
  | string (hquote : isQuote c) : Cut c cs (stringFrom c [] [c] cs)
  | word (hword : startsWord c) (hdigit : ¬ c.isDigit) (hquote : ¬ isQuote c) :
      Cut c cs (run .word continuesWord c cs)
  | mark {p : Piece} (hmark : mark? c cs = some p) : Cut c cs p

theorem cut_of_at? {c : Char} {cs : List Char} {p : Piece} (h : at? c cs = some p) :
    Cut c cs p := by
  unfold at? at h
  split_ifs at h with hblank hbreak hnote hdigit hquote hword
  · cases h
    exact .blank hblank
  · cases h
    exact .lineBreak hbreak
  · cases h
    exact .comment hnote
  · cases h
    exact .numeral hdigit
  · cases h
    exact .string hquote
  · cases h
    exact .word hword hdigit hquote
  · exact .mark h

end Piece

/-! The first character of a lexeme decides its class. -/

theorem mem_digits_of_isDigit {c : Char} (h : c.isDigit) :
    c ∈ ['0', '1', '2', '3', '4', '5', '6', '7', '8', '9'] := by
  obtain ⟨hlow, hhigh⟩ : 48 ≤ c.toNat ∧ c.toNat ≤ 57 := by
    simpa [Char.isDigit, UInt32.le_iff_toNat_le] using h
  rw [← Char.ofNat_toNat c]
  interval_cases c.toNat <;> decide

theorem digit_starts {c : Char} (h : c.isDigit) :
    ¬ Piece.startsWord c ∧ ¬ Piece.isQuote c ∧ c ≠ '+' ∧ c ≠ '-' ∧ c.toLower = c := by
  have hall : ['0', '1', '2', '3', '4', '5', '6', '7', '8', '9'].all fun c ↦
      ¬ Piece.startsWord c ∧ ¬ Piece.isQuote c ∧ c ≠ '+' ∧ c ≠ '-' ∧ c.toLower = c := by
    decide +kernel
  exact of_decide_eq_true (List.all_eq_true.mp hall c (mem_digits_of_isDigit h))

theorem quote_starts {c : Char} (h : Piece.isQuote c) :
    ¬ Piece.startsWord c ∧ ¬ c.isDigit ∧ c ≠ '\\' := by
  obtain rfl | rfl : c = '\'' ∨ c = '\"' := by simpa [Piece.isQuote] using h
  all_goals decide +kernel

theorem mark_starts {m : Mark} {c : Char} {cs : List Char} (h : m.spelling.toList = c :: cs) :
    ¬ Piece.startsWord c ∧ ¬ c.isDigit ∧ ¬ Piece.isQuote c ∧ c ≠ '\n' := by
  have hall : Mark.all.all fun m ↦ m.spelling.toList.head?.all fun c ↦
      ¬ Piece.startsWord c ∧ ¬ c.isDigit ∧ ¬ Piece.isQuote c ∧ c ≠ '\n' := by
    decide +kernel
  have hfirst := List.all_eq_true.mp hall m m.mem_all
  rw [h, List.head?_cons, Option.all_some] at hfirst
  exact of_decide_eq_true hfirst

namespace Lexeme

variable {w rest : List Char} {c : Char} {cs : List Char}

theorem IsDecimal.isDigit_of_cons {whole places : List Char}
    (h : IsDecimal (c :: cs) whole places) : c.isDigit := by
  obtain ⟨⟨hne, hwhole⟩, -, hw⟩ := h
  obtain ⟨d, ds, rfl⟩ := List.exists_cons_of_ne_nil hne
  rw [(List.cons.inj hw).1]
  exact hwhole d List.mem_cons_self

/-- The class of the lexemes that start with a character, if there are any. -/
def Class.of (c : Char) : Class :=
  if c.isDigit then .number
  else if Piece.isQuote c then .string
  else if Piece.startsWord c then .word
  else .mark

theorem Class.eq_of {k : Class} (h : k.Has (c :: cs)) : k = of c := by
  cases k with
  | word =>
      obtain ⟨d, ds, hd, hword, -⟩ := h
      obtain rfl := (List.cons.inj hd).1
      have hdigit : ¬ c.isDigit := fun hdigit ↦ (digit_starts hdigit).1 hword
      have hquote : ¬ Piece.isQuote c := fun hquote ↦ (quote_starts hquote).1 hword
      simp [of, hdigit, hquote, hword]
  | number =>
      have hdigit : c.isDigit := by
        rcases h with h | ⟨whole, places, h⟩
        · exact h.2 c List.mem_cons_self
        · exact h.isDigit_of_cons
      simp [of, hdigit]
  | string =>
      obtain ⟨quote, body, text, hquote, -, hw⟩ := h
      obtain rfl := (List.cons.inj hw).1
      simp [of, hquote, (quote_starts hquote).2.1]
  | mark =>
      obtain ⟨m, hm⟩ := h
      obtain ⟨hword, hdigit, hquote, -⟩ := mark_starts hm.symm
      simp [of, hword, hdigit, hquote]

/-- Only lexemes of its own class can start where a word does, and they go on with the first
character behind it. -/
theorem longest_of_class {k : Class} (hk : k = Class.of c)
    (h : ∀ d ∈ rest.head?, ∀ more, ¬ k.Has (c :: cs ++ d :: more)) : Longest (c :: cs) rest := by
  intro more hne hmore k' hk'
  obtain ⟨d, more, rfl⟩ := List.exists_cons_of_ne_nil hne
  have hhead : d ∈ rest.head? := by
    obtain ⟨us, rfl⟩ := hmore
    rfl
  have hclass : k' = k := (Class.eq_of hk').trans hk.symm
  exact h d hhead more (hclass ▸ hk')

theorem not_of_mem_head?_dropWhile {p : Char → Bool} {d : Char}
    (h : d ∈ (cs.dropWhile p).head?) : ¬ p d := by
  have hhead := List.head?_dropWhile_not p cs
  rw [Option.mem_def.mp h] at hhead
  simpa using hhead

theorem longest_word (hword : Piece.startsWord c) :
    Longest (c :: cs.takeWhile Piece.continuesWord) (cs.dropWhile Piece.continuesWord) := by
  have hdigit : ¬ c.isDigit := fun hdigit ↦ (digit_starts hdigit).1 hword
  have hquote : ¬ Piece.isQuote c := fun hquote ↦ (quote_starts hquote).1 hword
  refine longest_of_class (k := .word) (by simp [Class.of, hdigit, hquote, hword]) ?_
  rintro d hd more ⟨e, es, hes, -, hall⟩
  obtain rfl := (List.cons.inj hes).2
  exact not_of_mem_head?_dropWhile hd (hall d (by simp))

/-- A numeral is cut where its digits end, and if a point follows them, where the digits behind
the point end. -/
theorem numeral_cases (hdigit : c.isDigit) (cs : List Char) :
    ∃ ds, IsWhole (c :: ds) ∧
      ((∃ rest, Piece.numeral c cs = ⟨.integer, c :: ds, rest⟩ ∧
          ∀ d ∈ rest.head?, ¬ d.isDigit ∧ d ≠ '.') ∨
        ∃ places rest, Piece.numeral c cs = ⟨.decimal, c :: ds ++ '.' :: places, rest⟩ ∧
          (∀ d ∈ places, d.isDigit) ∧ ∀ d ∈ rest.head?, ¬ d.isDigit) := by
  refine ⟨cs.takeWhile Char.isDigit, ⟨List.cons_ne_nil _ _, ?_⟩, ?_⟩
  · exact List.forall_mem_cons.mpr ⟨hdigit, fun _ hd ↦ List.mem_takeWhile_imp hd⟩
  · unfold Piece.numeral
    split
    · next rest hrest =>
        exact .inr ⟨_, _, rfl, fun _ hd ↦ List.mem_takeWhile_imp hd,
          fun _ hd ↦ not_of_mem_head?_dropWhile hd⟩
    · next hpoint =>
        refine .inl ⟨_, rfl, fun d hd ↦ ⟨not_of_mem_head?_dropWhile hd, ?_⟩⟩
        rintro rfl
        obtain ⟨rest, hrest⟩ := List.head?_eq_some_iff.mp hd
        exact hpoint rest hrest

/-- The digits in front of the point of a decimal are those that it starts with. -/
theorem IsDecimal.places_eq {ds es whole places : List Char}
    (h : IsDecimal (ds ++ '.' :: es) whole places) (hds : ∀ d ∈ ds, d.isDigit) :
    places = es := by
  obtain ⟨⟨-, hwhole⟩, -, hw⟩ := h
  have hdrop := congrArg (List.dropWhile Char.isDigit) hw
  rw [List.dropWhile_append_of_pos hds, List.dropWhile_append_of_pos hwhole,
    List.dropWhile_cons_of_neg (by decide), List.dropWhile_cons_of_neg (by decide)] at hdrop
  exact (List.cons.inj hdrop).2.symm

/-- A decimal has only digits and a point. -/
theorem IsDecimal.digit_or_point {w whole places : List Char} (h : IsDecimal w whole places)
    {d : Char} (hd : d ∈ w) : d.isDigit ∨ d = '.' := by
  obtain ⟨⟨-, hwhole⟩, hplaces, rfl⟩ := h
  rcases List.mem_append.mp hd with hd | hd
  · exact .inl (hwhole d hd)
  · rcases List.mem_cons.mp hd with rfl | hd
    · exact .inr rfl
    · exact .inl (hplaces d hd)

theorem longest_numeral (hdigit : c.isDigit) :
    Longest (Piece.numeral c cs).lexeme (Piece.numeral c cs).rest := by
  have hclass : Class.number = Class.of c := by simp [Class.of, hdigit]
  obtain ⟨ds, ⟨-, hds⟩, ⟨rest, hcut, hrest⟩ | ⟨places, rest, hcut, hplaces, hrest⟩⟩ :=
    numeral_cases hdigit cs
  · rw [hcut]
    refine longest_of_class hclass ?_
    rintro d hd more (⟨-, hall⟩ | ⟨whole, places, h⟩)
    · exact (hrest d hd).1 (hall d (by simp))
    · rcases h.digit_or_point (d := d) (by simp) with hd' | hd'
      · exact (hrest d hd).1 hd'
      · exact (hrest d hd).2 hd'
  · rw [hcut]
    refine longest_of_class hclass ?_
    rintro d hd more (⟨-, hall⟩ | ⟨whole, places', h⟩)
    · exact absurd (hall '.' (by simp)) (by decide)
    · have hw : c :: (ds ++ '.' :: places) ++ d :: more =
          c :: ds ++ '.' :: (places ++ d :: more) := by simp
      have h : IsDecimal (c :: ds ++ '.' :: (places ++ d :: more)) whole places' := hw ▸ h
      have hall := h.2.1
      rw [h.places_eq hds] at hall
      exact hrest d hd (hall d (by simp))

/-- A string ends at its first quote. -/
theorem Decodes.eq_nil_of_append {quote : Char} (hquote : quote ≠ '\\')
    {body text body' text' more : List Char} (h : Decodes quote body text)
    (h' : Decodes quote body' text') (heq : body ++ quote :: more = body' ++ [quote]) :
    more = [] := by
  induction h generalizing body' text' with
  | nil =>
      cases h' with
      | nil => simpa using heq
      | escape _ => exact absurd (List.cons.inj heq).1 hquote
      | plain hne _ _ => exact absurd (List.cons.inj heq).1.symm hne
  | @escape c cs text h ih =>
      cases h' with
      | nil => exact absurd (List.cons.inj heq).1.symm hquote
      | escape h' => exact ih h' (List.cons.inj (List.cons.inj heq).2).2
      | plain _ hne _ => exact absurd (List.cons.inj heq).1.symm hne
  | @plain c cs text hne hescape h ih =>
      cases h' with
      | nil => exact absurd (List.cons.inj heq).1 hne
      | escape _ => exact absurd (List.cons.inj heq).1 hescape
      | plain _ _ h' => exact ih h' (List.cons.inj heq).2

theorem longest_string {body text : List Char} (hquote : Piece.isQuote c)
    (h : Decodes c body text) : Longest (c :: body ++ [c]) rest := by
  obtain ⟨-, hdigit, hne⟩ := quote_starts hquote
  rw [List.cons_append]
  refine longest_of_class (k := .string) (by simp [Class.of, hdigit, hquote]) ?_
  rintro d - more ⟨quote, body', text', -, h', hw⟩
  obtain ⟨rfl, hw⟩ := List.cons.inj hw
  have hmore : d :: more = [] := h.eq_nil_of_append hne h' (by simpa using hw)
  cases hmore

theorem mark_pair {m : Mark} {d : Char} {ds : List Char} (h : m.spelling.toList = c :: d :: ds) :
    ds = [] ∧ Mark.ofPair? c d = some m := by
  have hall : Mark.all.all fun m ↦ m.spelling.toList.length ≤ 2 ∧
      m.spelling.toList.head?.all fun c ↦ m.spelling.toList.tail.head?.all fun d ↦
        Mark.ofPair? c d = some m := by
    decide +kernel
  have hm := of_decide_eq_true (List.all_eq_true.mp hall m m.mem_all)
  rw [h] at hm
  obtain ⟨hlength, hpair⟩ := hm
  exact ⟨List.eq_nil_of_length_eq_zero (by simpa using hlength), of_decide_eq_true hpair⟩

/-- The mark that is cut is spelled by its lexeme, and no mark of two characters starts there
unless it is this one. -/
theorem mark?_cases {p : Piece} (h : Piece.mark? c cs = some p) :
    (∃ m, p = ⟨.mark m, [c], cs⟩ ∧ m.spelling.toList = [c] ∧
        ∀ d ∈ cs.head?, Mark.ofPair? c d = none) ∨
      ∃ m d ds, p = ⟨.mark m, [c, d], ds⟩ ∧ m.spelling.toList = [c, d] := by
  unfold Piece.mark? at h
  split at h
  · obtain ⟨m, hm, rfl⟩ := Option.map_eq_some_iff.mp h
    exact .inl ⟨m, rfl, by rw [Mark.spelling_of_ofChar? hm, String.toList_ofList], nofun⟩
  · next d ds =>
      split at h
      · next m hm =>
          cases h
          exact .inr ⟨m, d, ds, rfl, by rw [Mark.spelling_of_ofPair? hm, String.toList_ofList]⟩
      · next hnone =>
          obtain ⟨m, hm, rfl⟩ := Option.map_eq_some_iff.mp h
          refine .inl ⟨m, rfl, by rw [Mark.spelling_of_ofChar? hm, String.toList_ofList], ?_⟩
          rintro e ⟨rfl⟩
          exact hnone

theorem longest_mark {p : Piece} (h : Piece.mark? c cs = some p) : Longest p.lexeme p.rest := by
  have hclass {m : Mark} {ds : List Char} (hm : m.spelling.toList = c :: ds) :
      Class.mark = Class.of c := Class.eq_of (k := .mark) ⟨m, hm.symm⟩
  rcases mark?_cases h with ⟨m, rfl, hm, hnone⟩ | ⟨m, d, ds, rfl, hm⟩
  · refine longest_of_class (hclass hm) ?_
    rintro d hd more ⟨m', hm'⟩
    have hpair := (mark_pair hm'.symm).2
    rw [hnone d hd] at hpair
    cases hpair
  · refine longest_of_class (hclass hm) ?_
    rintro e - more ⟨m', hm'⟩
    cases (mark_pair hm'.symm).1

/-- The only lexeme with a line break in front is the line break. -/
theorem longest_newline (rest : List Char) : Longest ['\n'] rest := by
  have hclass : Class.mark = Class.of '\n' := by decide +kernel
  refine longest_of_class hclass ?_
  rintro d - more ⟨m, hm⟩
  exact (mark_starts hm.symm).2.2.2 rfl

/-- What is read after an opening quote. -/
theorem stringFrom_decodes (quote : Char) (value lexeme cs : List Char) :
    ∃ body text, Decodes quote body text ∧
      (∃ rest, Piece.stringFrom quote value lexeme cs =
          ⟨.string (value.reverse ++ text) true, lexeme.reverse ++ (body ++ [quote]), rest⟩ ∨
        ∃ tail, (tail = [] ∨ tail = ['\\']) ∧ Piece.stringFrom quote value lexeme cs =
          ⟨.string (value.reverse ++ text) false, lexeme.reverse ++ (body ++ tail), []⟩) := by
  fun_induction Piece.stringFrom quote value lexeme cs with
  | case1 value lexeme => exact ⟨[], [], .nil, [], .inr ⟨[], .inl rfl, by simp⟩⟩
  | case2 value lexeme cs => exact ⟨[], [], .nil, cs, .inl (by simp)⟩
  | case3 value lexeme hne => exact ⟨[], [], .nil, [], .inr ⟨['\\'], .inr rfl, by simp⟩⟩
  | case4 value lexeme d ds hne ih =>
      obtain ⟨body, text, h, rest, hclosed | ⟨tail, htail, hopen⟩⟩ := ih
      · exact ⟨'\\' :: d :: body, _ :: text, .escape h, rest, .inl (by simp [hclosed])⟩
      · exact ⟨'\\' :: d :: body, _ :: text, .escape h, rest,
          .inr ⟨tail, htail, by simp [hopen]⟩⟩
  | case5 value lexeme c cs hne hescape ih =>
      obtain ⟨body, text, h, rest, hclosed | ⟨tail, htail, hopen⟩⟩ := ih
      · exact ⟨c :: body, c :: text, .plain hne hescape h, rest, .inl (by simp [hclosed])⟩
      · exact ⟨c :: body, c :: text, .plain hne hescape h, rest,
          .inr ⟨tail, htail, by simp [hopen]⟩⟩

theorem foldl_digitValue (n : Nat) (ds : List Char) :
    ds.foldl (fun n d ↦ 10 * n + Numeral.digitValue d) n = value ds + 10 ^ ds.length * n := by
  induction ds generalizing n with
  | nil => simp [value]
  | cons d ds ih =>
      rw [List.foldl_cons, ih, value, value, List.reverse_cons, List.map_append,
        Nat.ofDigits_append]
      simp [Numeral.digitValue]
      ring

/-- Digit by digit from the front the same number is read. -/
theorem ofDigits_eq_value (ds : List Char) : Numeral.ofDigits ds = value ds := by
  rw [Numeral.ofDigits, foldl_digitValue, Nat.mul_zero, Nat.add_zero]

theorem splitSign_of_digit (hdigit : c.isDigit) :
    Numeral.splitSign (c :: cs) = (false, c :: cs) := by
  obtain ⟨-, -, hplus, hminus, -⟩ := digit_starts hdigit
  unfold Numeral.splitSign
  split
  · next heq => exact absurd (List.cons.inj heq).1 hminus
  · next heq => exact absurd (List.cons.inj heq).1 hplus
  · rfl

theorem integer?_of_isWhole (h : IsWhole cs) : Numeral.integer? cs = some (value cs) := by
  obtain ⟨c, ds, rfl⟩ := List.exists_cons_of_ne_nil h.1
  have hdigit := h.2 c List.mem_cons_self
  have hall : (c :: ds).all (fun d ↦ d.isDigit || d = '_') = true :=
    List.all_eq_true.mpr fun d hd ↦ by simp [h.2 d hd]
  have hfilter : (c :: ds).filter Char.isDigit = c :: ds :=
    List.filter_eq_self.mpr fun d hd ↦ h.2 d hd
  simp only [Numeral.integer?, splitSign_of_digit hdigit, Numeral.startsWithDigit, hdigit, hall,
    Bool.and_self, if_true, hfilter, ofDigits_eq_value, Numeral.signed]
  rfl

/-- No word that starts with a digit names a special value. -/
theorem lowered_ne (hdigit : c.isDigit) (cs : List Char) {d : Char} (hd : ¬ d.isDigit)
    (ds : List Char) : String.ofList ((c :: cs).map Char.toLower) ≠ String.ofList (d :: ds) := by
  intro heq
  have hfirst := (List.cons.inj (String.ofList_injective heq)).1
  rw [(digit_starts hdigit).2.2.2.2] at hfirst
  exact hd (hfirst ▸ hdigit)

theorem rounds_ofDecimal (c places : Nat) :
    Binary64.Rounds false (c / 10 ^ places) (Binary64.ofDecimal false c (-places)) := by
  have hrounds := Binary64.rounds_ofDecimal false c (-places)
  rwa [zpow_neg, zpow_natCast, ← div_eq_mul_inv] at hrounds

theorem decimal?_of_isDecimal {whole places : List Char} (h : IsDecimal cs whole places) :
    Numeral.decimal? false cs =
      some (Binary64.ofDecimal false (value (whole ++ places)) (-places.length)) := by
  obtain ⟨⟨hne, hwhole⟩, hplaces, rfl⟩ := h
  have htake : (whole ++ '.' :: places).takeWhile Char.isDigit = whole := by
    rw [List.takeWhile_append_of_pos hwhole, List.takeWhile_cons_of_neg (by decide),
      List.append_nil]
  have hdrop : (whole ++ '.' :: places).dropWhile Char.isDigit = '.' :: places := by
    rw [List.dropWhile_append_of_pos hwhole, List.dropWhile_cons_of_neg (by decide)]
  have hempty : whole.isEmpty = false := List.isEmpty_eq_false_iff.mpr hne
  simp only [Numeral.decimal?, htake, hdrop, List.takeWhile_eq_self_iff.mpr hplaces,
    List.dropWhile_eq_nil_iff.mpr hplaces, hempty, Bool.false_and, ofDigits_eq_value,
    Numeral.exponent?, Option.map_some, Int.zero_sub]
  rfl

/-- A decimal is read as the double to which it rounds. -/
theorem double?_of_isDecimal {whole places : List Char} (h : IsDecimal cs whole places) :
    ∃ x, Numeral.double? cs = some x ∧
      Binary64.Rounds false (value (whole ++ places) / 10 ^ places.length) x := by
  have hdecimal := decimal?_of_isDecimal h
  refine ⟨_, ?_, rounds_ofDecimal (value (whole ++ places)) places.length⟩
  obtain ⟨⟨hne, hwhole⟩, -, rfl⟩ := h
  obtain ⟨c, ds, rfl⟩ := List.exists_cons_of_ne_nil hne
  have hdigit := hwhole c List.mem_cons_self
  rw [List.cons_append] at hdecimal ⊢
  have hinf : _ ≠ String.ofList ['i', 'n', 'f'] :=
    lowered_ne hdigit (ds ++ '.' :: places) (by decide) _
  have hinfinity : _ ≠ String.ofList ['i', 'n', 'f', 'i', 'n', 'i', 't', 'y'] :=
    lowered_ne hdigit (ds ++ '.' :: places) (by decide) _
  have hnan : _ ≠ String.ofList ['n', 'a', 'n'] :=
    lowered_ne hdigit (ds ++ '.' :: places) (by decide) _
  have hwords : "inf" = String.ofList ['i', 'n', 'f'] ∧
      "infinity" = String.ofList ['i', 'n', 'f', 'i', 'n', 'i', 't', 'y'] ∧
      "nan" = String.ofList ['n', 'a', 'n'] := ⟨rfl, rfl, rfl⟩
  simp only [Numeral.double?, splitSign_of_digit hdigit, hwords, hinf, hinfinity, hnan,
    if_false, hdecimal]
  simp

theorem double?_of_rounds {whole places : List Char} {x : Binary64} (h : IsDecimal cs whole places)
    (hx : Binary64.Rounds false (value (whole ++ places) / 10 ^ places.length) x) :
    Numeral.double? cs = some x := by
  obtain ⟨y, hy, hrounds⟩ := double?_of_isDecimal h
  rw [hy, hrounds.unique hx]

end Lexeme

namespace Piece

variable {mode : Mode} {position : Position} {c : Char} {cs : List Char} {p : Piece} {t : Token}

theorem token?_lexeme (h : p.token? mode position = .ok (some t)) :
    t.lexeme = String.ofList p.lexeme ∧ t.position = position := by
  unfold token? at h
  cases hshape : p.shape with
  | blank | comment =>
      simp only [hshape] at h
      cases h
  | lineBreak | mark _ =>
      simp only [hshape] at h
      cases h
      exact ⟨rfl, rfl⟩
  | integer | decimal | string _ _ =>
      simp only [hshape] at h
      split at h
      all_goals cases h
      exact ⟨rfl, rfl⟩
  | word =>
      simp only [hshape] at h
      split at h
      all_goals
        cases h
        exact ⟨rfl, rfl⟩

/-- A piece that is no token is blanks or a comment. -/
theorem lexeme_of_token?_eq_none (hpiece : at? c cs = some p)
    (htoken : p.token? mode position = .ok none) :
    (∀ b ∈ p.lexeme, isBlank b) ∨ ∃ comment, p.lexeme = '#' :: comment ∧ '\n' ∉ comment ∧
      ∀ d ∈ p.rest.head?, d = '\n' := by
  have hshape : p.shape = .blank ∨ p.shape = .comment := by
    rcases token?_cases htoken with ⟨hshape, -⟩ | ⟨-, t, ht, -⟩ | ⟨-, t, ht, -⟩
    · exact hshape
    · cases ht
    · cases ht
  cases cut_of_at? hpiece with
  | blank hblank =>
      exact .inl (List.forall_mem_cons.mpr ⟨hblank, fun _ hb ↦ List.mem_takeWhile_imp hb⟩)
  | comment hnote =>
      subst hnote
      refine .inr ⟨_, rfl, fun hmem ↦ ?_, fun d hd ↦ ?_⟩
      · simpa using List.mem_takeWhile_imp hmem
      · simpa using Lexeme.not_of_mem_head?_dropWhile hd
  | lineBreak _ | word _ _ _ => simp [run] at hshape
  | numeral _ => rcases shape_numeral c cs with h | h <;> simp [h] at hshape
  | string hquote =>
      obtain ⟨-, text, closed, -, h, -⟩ :=
        stringFrom_closes (ne_backslash_of_isQuote hquote) [] [c] cs
      simp [h] at hshape
  | mark hmark =>
      obtain ⟨m, h⟩ := shape_of_mark? hmark
      simp [h] at hshape

open Lexeme

/-- A token that is cut denotes what its lexeme says, and no lexeme there is longer. -/
theorem denotes_of_at? (hpiece : at? c cs = some p)
    (htoken : p.token? mode position = .ok (some t)) :
    Denotes mode p.rest t.kind p.lexeme t.literal ∧ Longest p.lexeme p.rest := by
  cases cut_of_at? hpiece with
  | blank _ | comment _ => cases htoken
  | lineBreak hbreak =>
      cases htoken
      subst hbreak
      exact ⟨.newline, longest_newline cs⟩
  | numeral hdigit =>
      refine ⟨?_, longest_numeral hdigit⟩
      obtain ⟨ds, hwhole, ⟨rest, hcut, -⟩ | ⟨places, rest, hcut, hplaces, -⟩⟩ :=
        numeral_cases hdigit cs
      · rw [hcut, token?] at htoken
        simp only [integer?_of_isWhole hwhole] at htoken
        cases htoken
        rw [hcut]
        exact .integer hwhole
      · have hdecimal : IsDecimal (c :: ds ++ '.' :: places) (c :: ds) places :=
          ⟨hwhole, hplaces, rfl⟩
        rw [hcut, token?] at htoken
        obtain ⟨x, hvalue, hx⟩ := double?_of_isDecimal hdecimal
        simp only [hvalue] at htoken
        cases htoken
        rw [hcut]
        exact .float hdecimal hx
  | string hquote =>
      obtain ⟨body, text, hbody, rest, hcut | ⟨tail, htail, hcut⟩⟩ :=
        stringFrom_decodes c [] [c] cs
      · rw [hcut] at htoken ⊢
        cases htoken
        exact ⟨.string hquote hbody, longest_string hquote hbody⟩
      · rw [hcut, token?] at htoken
        rw [hcut]
        have hlongest : Longest (c :: body ++ tail) [] := fun more hne hmore ↦
          absurd (List.prefix_nil.mp hmore) hne
        cases mode with
        | lenient =>
            cases htoken
            exact ⟨.unfinished hquote hbody rfl rfl tail htail, hlongest⟩
        | strict => cases htoken
  | word hword _ _ =>
      refine ⟨?_, longest_word hword⟩
      have hw : IsWord (c :: cs.takeWhile continuesWord) :=
        ⟨c, _, rfl, hword, fun _ hd ↦ List.mem_takeWhile_imp hd⟩
      simp only [run, token?] at htoken ⊢
      split at htoken
      · next k hk =>
          cases htoken
          refine .keyword hw k ?_
          rw [Keyword.spelling_of_ofWord? hk, String.toList_ofList]
      · next hnone =>
          cases htoken
          refine .identifier hw fun k hk ↦ ?_
          rw [← hk, String.ofList_toList, Keyword.ofWord?_spelling] at hnone
          cases hnone
  | mark hmark =>
      refine ⟨?_, longest_mark hmark⟩
      rcases mark?_cases hmark with ⟨m, rfl, hm, -⟩ | ⟨m, d, ds, rfl, hm⟩
      · cases htoken
        exact .mark m hm
      · cases htoken
        exact .mark m hm

end Piece
end Offside
