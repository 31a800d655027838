import Mathlib.Computability.Language
import Offside.Proofs.Scan.Balance
import Offside.Proofs.Scan.Extend

/-!
# The lines of a scanned source

The tokens of a source form lines. A line opens at most one level or closes some, it has at least
one written token, and only the last line may lack its line break. The dedents that close the open
levels and one end mark follow. Never have more levels been closed than were opened.
-/

namespace Offside

open scoped Computability

namespace Kind

/-- The words of one kind that satisfies `P`. -/
def letter (P : Kind → Prop) : Language Kind :=
  {w | ∃ k, P k ∧ w = [k]}

/-- What a line does to the levels before its first written token. -/
def opening : Language Kind :=
  letter (· = .indent) + (letter (· = .dedent))∗

/-- A line without its line break. -/
def line : Language Kind :=
  opening * (letter IsInk * (letter IsInk)∗)

def lines : Language Kind :=
  (line * letter (· = .newline))∗

def stream : Language Kind :=
  lines * (1 + line) * (letter (· = .dedent))∗ * letter (· = .eof)

/-- Right before every line break stands a written token. -/
def BreaksEndLines (ks : List Kind) : Prop :=
  ∀ us vs, ks = us ++ .newline :: vs → ∃ ws k, us = ws ++ [k] ∧ k.IsInk

/-- Between two indents stands a line break. -/
def IndentsApart (ks : List Kind) : Prop :=
  ∀ us vs ws, ks = us ++ .indent :: vs ++ .indent :: ws → .newline ∈ vs

section

variable {P : Kind → Prop} {ks us vs : List Kind}

theorem mem_letter_kstar : ks ∈ (letter P)∗ ↔ ∀ k ∈ ks, P k := by
  rw [Language.mem_kstar]
  constructor
  · rintro ⟨words, rfl, hwords⟩ k hk
    obtain ⟨w, hw, hkw⟩ := List.mem_flatten.mp hk
    obtain ⟨k', hk', rfl⟩ := hwords w hw
    rwa [List.mem_singleton.mp hkw]
  · intro hall
    refine ⟨ks.map ([·]), by simp [← List.flatMap_def], fun w hw ↦ ?_⟩
    obtain ⟨k, hk, rfl⟩ := List.mem_map.mp hw
    exact ⟨k, hall k hk, rfl⟩

theorem mem_letter_mul_kstar :
    ks ∈ letter P * (letter P)∗ ↔ ks ≠ [] ∧ ∀ k ∈ ks, P k := by
  rw [Language.mem_mul]
  constructor
  · rintro ⟨_, ⟨k, hk, rfl⟩, us, hus, rfl⟩
    exact ⟨List.cons_ne_nil k us, List.forall_mem_cons.mpr ⟨hk, mem_letter_kstar.mp hus⟩⟩
  · rintro ⟨hne, hall⟩
    obtain ⟨k, us, rfl⟩ := List.exists_cons_of_ne_nil hne
    obtain ⟨hk, hus⟩ := List.forall_mem_cons.mp hall
    exact ⟨[k], ⟨k, hk, rfl⟩, us, mem_letter_kstar.mpr hus, rfl⟩

theorem mem_line_iff : ks ∈ line ↔
    ∃ us vs, us ∈ opening ∧ vs ≠ [] ∧ (∀ k ∈ vs, k.IsInk) ∧ us ++ vs = ks := by
  rw [line, Language.mem_mul]
  simp only [mem_letter_mul_kstar]
  constructor
  · rintro ⟨us, hus, vs, ⟨hne, hvs⟩, rfl⟩
    exact ⟨us, vs, hus, hne, hvs, rfl⟩
  · rintro ⟨us, vs, hus, hne, hvs, rfl⟩
    exact ⟨us, hus, vs, ⟨hne, hvs⟩, rfl⟩

/-- One more line. -/
theorem append_mem_lines (hus : us ∈ lines) (hvs : vs ∈ line) :
    us ++ (vs ++ [.newline]) ∈ lines := by
  obtain ⟨words, rfl, hwords⟩ := Language.mem_kstar.mp hus
  refine Language.mem_kstar.mpr ⟨words ++ [vs ++ [.newline]], by simp, fun w hw ↦ ?_⟩
  rcases List.mem_append.mp hw with hw | hw
  · exact hwords w hw
  · rw [List.mem_singleton.mp hw]
    exact Language.append_mem_mul hvs ⟨.newline, rfl, rfl⟩

/-- What holds of no lines and is kept by a line in front holds of all lines. -/
theorem lines_induction {motive : List Kind → Prop} (hnil : motive [])
    (hcons : ∀ us vs, us ∈ line → motive vs → motive (us ++ .newline :: vs))
    (h : ks ∈ lines) : motive ks := by
  obtain ⟨words, rfl, hwords⟩ := Language.mem_kstar.mp h
  clear h
  induction words with
  | nil => exact hnil
  | cons w words ih =>
      obtain ⟨⟨us, hus, vs, ⟨k, hk, rfl⟩, hw⟩, hwords⟩ := List.forall_mem_cons.mp hwords
      have hmotive := hcons us words.flatten hus (ih hwords)
      rwa [← List.singleton_append, ← List.append_assoc, ← hk, ← List.flatten_cons,
        show us ++ [k] = w from hw] at hmotive

theorem kind_of_mem_line {k : Kind} (h : ks ∈ line) (hk : k ∈ ks) :
    k = .indent ∨ k = .dedent ∨ k.IsInk := by
  obtain ⟨us, vs, hus, -, hvs, rfl⟩ := mem_line_iff.mp h
  rcases List.mem_append.mp hk with hk | hk
  · rcases hus with ⟨_, rfl, rfl⟩ | hus
    · exact .inl (List.mem_singleton.mp hk)
    · exact .inr (.inl (mem_letter_kstar.mp hus k hk))
  · exact .inr (.inr (hvs k hk))

theorem newline_notMem_of_mem_line (h : ks ∈ line) : .newline ∉ ks :=
  fun hmem ↦ by simpa [IsInk] using kind_of_mem_line h hmem

theorem eof_notMem_of_mem_line (h : ks ∈ line) : .eof ∉ ks :=
  fun hmem ↦ by simpa [IsInk] using kind_of_mem_line h hmem

theorem exists_ink_of_mem_line (h : ks ∈ line) : ∃ us k, ks = us ++ [k] ∧ k.IsInk := by
  obtain ⟨us, vs, -, hne, hvs, rfl⟩ := mem_line_iff.mp h
  obtain ⟨ws, k, rfl⟩ := (List.eq_nil_or_concat' vs).resolve_left hne
  exact ⟨us ++ ws, k, (List.append_assoc ..).symm, hvs k (by simp)⟩

theorem count_indent_le_of_mem_line (h : ks ∈ line) : ks.count .indent ≤ 1 := by
  obtain ⟨us, vs, hus, -, hvs, rfl⟩ := mem_line_iff.mp h
  have hink : vs.count .indent = 0 := List.count_eq_zero.mpr fun hmem ↦ hvs _ hmem
  have hopening : us.count .indent ≤ 1 := by
    rcases hus with ⟨k, rfl, rfl⟩ | hus
    · exact le_rfl
    · have hnone : us.count .indent = 0 :=
        List.count_eq_zero.mpr fun hmem ↦ nomatch mem_letter_kstar.mp hus _ hmem
      omega
  rw [List.count_append]
  omega

theorem BreaksEndLines.of_notMem (h : .newline ∉ ks) : BreaksEndLines ks := by
  rintro us vs rfl
  exact absurd (by simp) h

theorem BreaksEndLines.append (hus : BreaksEndLines us) (hvs : BreaksEndLines vs) :
    BreaksEndLines (us ++ vs) := by
  intro before after h
  rcases List.append_eq_append_iff.mp h with ⟨ws, rfl, hws⟩ | ⟨ws, rfl, hws⟩
  · obtain ⟨front, k, rfl, hk⟩ := hvs ws after hws
    exact ⟨us ++ front, k, (List.append_assoc ..).symm, hk⟩
  · cases ws with
    | nil =>
        obtain ⟨front, k, hfront, -⟩ := hvs [] after hws.symm
        simp at hfront
    | cons w ws =>
        obtain ⟨rfl, -⟩ := List.cons.inj hws
        exact hus before ws rfl

theorem BreaksEndLines.of_mem_line (h : ks ∈ line) : BreaksEndLines (ks ++ [.newline]) := by
  obtain ⟨us, k, rfl, hk⟩ := exists_ink_of_mem_line h
  have hnone := newline_notMem_of_mem_line h
  intro before after heq
  rcases List.append_eq_append_iff.mp heq with ⟨ws, rfl, hws⟩ | ⟨ws, hws, heq⟩
  · cases ws with
    | nil => exact ⟨us, k, List.append_nil _, hk⟩
    | cons w ws => simp at hws
  · cases ws with
    | nil => exact ⟨us, k, by simpa using hws.symm, hk⟩
    | cons w ws =>
        obtain ⟨rfl, -⟩ := List.cons.inj heq
        exact absurd (by simp [hws]) hnone

theorem BreaksEndLines.of_mem_lines (h : ks ∈ lines) : BreaksEndLines ks := by
  refine lines_induction (.of_notMem List.not_mem_nil) (fun us vs hus hvs ↦ ?_) h
  simpa using (BreaksEndLines.of_mem_line hus).append hvs

theorem IndentsApart.of_count_le (h : ks.count .indent ≤ 1) : IndentsApart ks := by
  rintro us vs ws rfl
  simp only [List.count_append, List.count_cons_self] at h
  omega

theorem IndentsApart.append_of_notMem (hus : IndentsApart us) (hvs : .indent ∉ vs) :
    IndentsApart (us ++ vs) := by
  intro before between after h
  rcases List.append_eq_append_iff.mp h with ⟨ws, -, rfl⟩ | ⟨ws, rfl, hws⟩
  · exact absurd (by simp) hvs
  · cases ws with
    | nil =>
        rw [List.nil_append] at hws
        exact absurd (by simp [← hws]) hvs
    | cons w ws =>
        obtain ⟨rfl, -⟩ := List.cons.inj hws
        exact hus before between ws rfl

/-- A line break between two parts keeps their indents apart. -/
theorem IndentsApart.append_newline (hus : IndentsApart us) (hvs : IndentsApart vs) :
    IndentsApart (us ++ .newline :: vs) := by
  intro before between after h
  rw [List.append_assoc, List.cons_append] at h
  rcases List.append_eq_append_iff.mp h with ⟨ws, rfl, hws⟩ | ⟨ws, rfl, hws⟩
  · cases ws with
    | nil => cases hws
    | cons w ws =>
        obtain ⟨-, rfl⟩ := List.cons.inj hws
        exact hvs ws between after (by simp)
  · cases ws with
    | nil => cases hws
    | cons w ws =>
        obtain rfl := (List.cons.inj hws).1
        have htail : between ++ .indent :: after = ws ++ .newline :: vs := (List.cons.inj hws).2
        rcases List.append_eq_append_iff.mp htail with ⟨xs, rfl, hxs⟩ | ⟨xs, rfl, hxs⟩
        · cases xs with
          | nil => cases hxs
          | cons x xs =>
              obtain rfl := (List.cons.inj hxs).1
              exact hus before between xs (by simp)
        · cases xs with
          | nil => cases hxs
          | cons x xs =>
              obtain rfl := (List.cons.inj hxs).1
              simp

theorem IndentsApart.of_mem_lines (hus : us ∈ lines) (hvs : IndentsApart vs) :
    IndentsApart (us ++ vs) := by
  refine lines_induction (motive := fun us ↦ IndentsApart (us ++ vs)) hvs
    (fun ks us hks hus ↦ ?_) hus
  have hline := IndentsApart.of_count_le (count_indent_le_of_mem_line hks)
  simpa using hline.append_newline hus

theorem mem_stream_iff : ks ∈ stream ↔
    ∃ us vs ws, us ∈ lines ∧ (vs = [] ∨ vs ∈ line) ∧ (∀ k ∈ ws, k = .dedent) ∧
      us ++ vs ++ ws ++ [.eof] = ks := by
  rw [stream, Language.mem_mul]
  constructor
  · rintro ⟨_, ⟨_, ⟨us, hus, vs, hvs, rfl⟩, ws, hws, rfl⟩, _, ⟨k, rfl, rfl⟩, rfl⟩
    exact ⟨us, vs, ws, hus, hvs, mem_letter_kstar.mp hws, rfl⟩
  · rintro ⟨us, vs, ws, hus, hvs, hws, rfl⟩
    have hvs : vs ∈ 1 + line := hvs
    have hlines := Language.append_mem_mul hus hvs
    exact ⟨_, Language.append_mem_mul hlines (mem_letter_kstar.mpr hws), _, ⟨.eof, rfl, rfl⟩, rfl⟩

theorem eof_notMem_of_mem_lines (h : ks ∈ lines) : .eof ∉ ks := by
  refine lines_induction (motive := (.eof ∉ ·)) List.not_mem_nil (fun us vs hus hvs hmem ↦ ?_) h
  rcases List.mem_append.mp hmem with hmem | hmem
  · exact eof_notMem_of_mem_line hus hmem
  · rcases List.mem_cons.mp hmem with hmem | hmem
    · cases hmem
    · exact hvs hmem

/-- The end mark is the last kind of a stream and stands nowhere else. -/
theorem exists_eof_of_mem_stream (h : ks ∈ stream) : ∃ us, ks = us ++ [.eof] ∧ .eof ∉ us := by
  obtain ⟨us, vs, ws, hus, hvs, hws, rfl⟩ := mem_stream_iff.mp h
  refine ⟨us ++ vs ++ ws, rfl, fun hmem ↦ ?_⟩
  rcases List.mem_append.mp hmem with hmem | hmem
  · rcases List.mem_append.mp hmem with hmem | hmem
    · exact eof_notMem_of_mem_lines hus hmem
    · rcases hvs with rfl | hvs
      · exact absurd hmem List.not_mem_nil
      · exact eof_notMem_of_mem_line hvs hmem
  · cases hws _ hmem

theorem BreaksEndLines.of_mem_stream (h : ks ∈ stream) : BreaksEndLines ks := by
  obtain ⟨us, vs, ws, hus, hvs, hws, rfl⟩ := mem_stream_iff.mp h
  have hlast : BreaksEndLines vs := by
    rcases hvs with rfl | hvs
    · exact .of_notMem List.not_mem_nil
    · exact .of_notMem (newline_notMem_of_mem_line hvs)
  have hclose : BreaksEndLines ws := .of_notMem fun hmem ↦ nomatch hws _ hmem
  have heof : BreaksEndLines [.eof] := .of_notMem (by decide)
  exact (((BreaksEndLines.of_mem_lines hus).append hlast).append hclose).append heof

theorem IndentsApart.of_mem_stream (h : ks ∈ stream) : IndentsApart ks := by
  obtain ⟨us, vs, ws, hus, hvs, hws, rfl⟩ := mem_stream_iff.mp h
  have hlast : IndentsApart vs := by
    rcases hvs with rfl | hvs
    · exact .of_count_le (Nat.zero_le 1)
    · exact .of_count_le (count_indent_le_of_mem_line hvs)
  have hclose : .indent ∉ ws := fun hmem ↦ nomatch hws _ hmem
  exact ((IndentsApart.of_mem_lines hus hlast).append_of_notMem hclose).append_of_notMem (by decide)

end

end Kind

theorem excess_eq_count_sub (ts : List Token) :
    excess ts = ((ts.map Token.kind).count .indent : Int) - (ts.map Token.kind).count .dedent := by
  induction ts with
  | nil => rfl
  | cons t ts ih =>
      rw [excess_cons, ih, List.map_cons, List.count_cons, List.count_cons]
      cases t.kind with
      | indent | dedent =>
          simp only [Kind.rise, beq_iff_eq, reduceCtorEq, if_true, if_false]
          omega
      | _ => exact Int.zero_add _

theorem excess_of_dedents {ts : List Token} (h : ∀ t ∈ ts, t.kind = .dedent) :
    excess ts = -ts.length := by
  have hall : ∀ r ∈ ts.map (·.kind.rise), r = (-1 : Int) := by
    intro r hr
    obtain ⟨t, ht, rfl⟩ := List.mem_map.mp hr
    rw [h t ht]
    rfl
  rw [excess, List.eq_replicate_of_mem hall]
  simp

/-- With `n` levels open in front of them, the tokens never close more than there are. -/
def StaysOpen (n : Int) (ts : List Token) : Prop :=
  ∀ us, us <+: ts → 0 ≤ n + excess us

namespace StaysOpen

variable {n : Int} {ts us : List Token}

theorem append (hts : StaysOpen n ts) (hus : StaysOpen (n + excess ts) us) :
    StaysOpen n (ts ++ us) := by
  rintro vs ⟨ws, h⟩
  rcases List.append_eq_append_iff.mp h with ⟨xs, rfl, -⟩ | ⟨xs, rfl, hxs⟩
  · exact hts vs (List.prefix_append vs xs)
  · have hxs := hus xs ⟨ws, hxs.symm⟩
    rw [excess_append]
    omega

theorem of_forall_rise_eq (hn : 0 ≤ n) (h : ∀ t ∈ ts, t.kind.rise = 0) : StaysOpen n ts := by
  intro us hus
  have hzero : excess us = 0 := by
    rw [excess, List.map_eq_replicate_iff.mpr fun t ht ↦ h t (hus.subset ht)]
    simp
  omega

theorem nil (hn : 0 ≤ n) : StaysOpen n [] :=
  .of_forall_rise_eq hn fun _ ht ↦ absurd ht List.not_mem_nil

theorem of_indent {t : Token} (hn : 0 ≤ n) (ht : t.kind = .indent) : StaysOpen n [t] := by
  intro us hus
  rcases List.prefix_cons_iff.mp hus with rfl | ⟨vs, rfl, hvs⟩
  · rwa [excess_nil, Int.add_zero]
  · rw [List.prefix_nil.mp hvs, excess_cons, ht]
    show 0 ≤ n + (1 + 0)
    omega

/-- As many dedents as there are levels. -/
theorem of_dedents (hn : (ts.length : Int) ≤ n) (h : ∀ t ∈ ts, t.kind = .dedent) :
    StaysOpen n ts := by
  intro us hus
  have hlength := hus.length_le
  rw [excess_of_dedents fun t ht ↦ h t (hus.subset ht)]
  omega

end StaysOpen

/-- Only a line break is cut as one. -/
theorem Piece.shape_ne_lineBreak {c : Char} {cs : List Char} {p : Piece} (hc : c ≠ '\n')
    (h : at? c cs = some p) : p.shape ≠ .lineBreak := by
  unfold at? at h
  split_ifs at h with _ _ _ hquote
  · cases h
    exact nofun
  · cases h
    exact nofun
  · cases h
    rcases shape_numeral c cs with hnumeral | hnumeral <;> simp [hnumeral]
  · cases h
    obtain ⟨-, text, closed, -, hshape, -⟩ :=
      stringFrom_closes (ne_backslash_of_isQuote hquote) [] [c] cs
    simp [hshape]
  · cases h
    exact nofun
  · obtain ⟨m, hm⟩ := shape_of_mark? h
    simp [hm]

namespace Scan

variable {mode : Mode} {s t : Scan} {ws xs : List Token}

theorem settle_staysOpen (l : Levels) (w : Nat) (p : Position) :
    StaysOpen l.widths.length ((l.settle w).1.map (Token.layout · p)) := by
  by_cases hw : l.innermost < w
  · rw [Levels.settle_of_lt hw]
    exact .of_indent (Int.natCast_nonneg _) rfl
  · rw [Levels.settle_of_le (Nat.not_lt.mp hw)]
    refine .of_dedents ?_ fun t ht ↦ ?_
    · have hle := (List.takeWhile_sublist (w < ·) (l := l.widths)).length_le
      rw [List.length_map, List.length_map]
      omega
    · obtain ⟨k, hk, rfl⟩ := List.mem_map.mp ht
      obtain ⟨-, -, rfl⟩ := List.mem_map.mp hk
      rfl

theorem Step.staysOpen (h : Step mode s xs t) : StaysOpen s.levels.widths.length xs := by
  have hlevels := Int.natCast_nonneg s.levels.widths.length
  cases h with
  | drop _ _ | dropLast _ _ => exact .nil hlevels
  | settle _ _ _ _ => exact settle_staysOpen _ _ _
  | piece _ _ htoken =>
      refine .of_forall_rise_eq hlevels fun x hx ↦ ?_
      rcases Piece.token?_cases htoken with ⟨-, rfl⟩ | ⟨-, y, rfl, hy⟩ | ⟨-, y, rfl, hy⟩
      · exact absurd hx List.not_mem_nil
      · rw [List.mem_singleton.mp hx, hy]
        rfl
      · rw [List.mem_singleton.mp hx]
        exact hy.rise_eq

theorem Reaches.staysOpen (h : Reaches mode s xs t) : StaysOpen s.levels.widths.length xs := by
  induction h with
  | refl s => exact .nil (Int.natCast_nonneg _)
  | step hstep _ ih =>
      refine hstep.staysOpen.append ?_
      rwa [Int.add_comm, hstep.excess_eq]

theorem finish_staysOpen (s : Scan) : StaysOpen s.levels.widths.length s.finish := by
  rw [finish_eq]
  refine StaysOpen.append ?_ ?_
  · exact .of_dedents (by simp [dedents, Levels.close]) fun _ ↦ kind_of_mem_dedents
  · have hclosed := s.excess_dedents
    refine .of_forall_rise_eq (by omega) fun x hx ↦ ?_
    rw [List.mem_singleton.mp hx]
    rfl

/-- Where a scan stands in the lines that it has made: behind whole lines, or within a line that
has written tokens or is about to get one. -/
inductive Stands (ks : List Kind) (s : Scan) : Prop
  | start (hstart : s.lineStart = true) (hlines : ks ∈ Kind.lines)
  | within {lines opening ink : List Kind} (hstart : s.lineStart = false)
      (hks : ks = lines ++ (opening ++ ink)) (hlines : lines ∈ Kind.lines)
      (hopening : opening ∈ Kind.opening) (hink : ∀ k ∈ ink, k.IsInk)
      (hnext : ink ≠ [] ∨ ∃ c cs, s.reader.rest = c :: cs ∧ Piece.Leads c)

theorem settle_mem_opening (l : Levels) (w : Nat) : (l.settle w).1 ∈ Kind.opening := by
  by_cases hw : l.innermost < w
  · rw [Levels.settle_of_lt hw]
    exact .inl ⟨.indent, rfl, rfl⟩
  · rw [Levels.settle_of_le (Nat.not_lt.mp hw)]
    refine .inr (Kind.mem_letter_kstar.mpr fun k hk ↦ ?_)
    obtain ⟨-, -, rfl⟩ := List.mem_map.mp hk
    rfl

theorem Step.stands (h : Step mode s xs t) (hs : Stands (ws.map Token.kind) s) :
    Stands ((ws ++ xs).map Token.kind) t := by
  rw [List.map_append]
  cases h with
  | drop _ _ | dropLast _ _ =>
      cases hs with
      | start _ hlines => exact .start rfl (by simpa using hlines)
      | within hstart _ _ _ _ _ => cases hstart
  | @settle r l blanks rest c _ _ hlead _ =>
      cases hs with
      | start _ hlines =>
          have hkinds : ws.map Token.kind ++ ((l.settle (indentWidth blanks)).1.map
              (Token.layout · r.position.margin)).map Token.kind =
                ws.map Token.kind ++ ((l.settle (indentWidth blanks)).1 ++ []) := by
            simp [Function.comp_def, Token.layout]
          exact .within rfl hkinds hlines (settle_mem_opening l (indentWidth blanks)) nofun
            (.inr ⟨c, rest, rfl, hlead⟩)
      | within hstart _ _ _ _ _ => cases hstart
  | @piece r l c cs p token hrest hpiece htoken =>
      cases hs with
      | start hstart _ => cases hstart
      | @within lines opening ink _ hks hlines hopening hink hnext =>
          have hnext : ink ≠ [] ∨ Piece.Leads c := by
            rcases hnext with hne | ⟨d, ds, hd, hlead⟩
            · exact .inl hne
            · obtain ⟨rfl, rfl⟩ := List.cons.inj (hrest.symm.trans hd)
              exact .inr hlead
          rcases Piece.token?_cases htoken with ⟨hshape, rfl⟩ | ⟨hshape, y, rfl, hy⟩ |
            ⟨hshape, y, rfl, hy⟩
          · have hne := hnext.resolve_right fun hlead ↦
              Piece.not_idle_of_leads hlead hpiece hshape
            have hstart : decide (p.shape = .lineBreak) = false := by
              rcases hshape with hshape | hshape <;> rw [hshape] <;> rfl
            exact .within hstart (by simpa using hks) hlines hopening hink (.inl hne)
          · have hne := hnext.resolve_right fun hlead ↦
              Piece.shape_ne_lineBreak hlead.2.1 hpiece hshape
            have hline : opening ++ ink ∈ Kind.line :=
              Kind.mem_line_iff.mpr ⟨opening, ink, hopening, hne, hink, rfl⟩
            refine .start (decide_eq_true hshape) ?_
            simpa [hks, hy] using Kind.append_mem_lines hlines hline
          · have hkinds : ws.map Token.kind ++ [y.kind] =
                lines ++ (opening ++ (ink ++ [y.kind])) := by
              simp [hks]
            refine .within (decide_eq_false hshape) hkinds hlines hopening (fun k hk ↦ ?_)
              (.inl (by simp))
            rcases List.mem_append.mp hk with hk | hk
            · exact hink k hk
            · rwa [List.mem_singleton.mp hk]

theorem start_stands (source : String) : Stands [] (start source) :=
  .start rfl (Language.nil_mem_kstar _)

/-- At the end the last line is either whole or lacks only its line break. -/
theorem Stands.exists_lines {ks : List Kind} (h : Stands ks s) (hend : s.reader.rest = []) :
    ∃ us vs, us ∈ Kind.lines ∧ (vs = [] ∨ vs ∈ Kind.line) ∧ ks = us ++ vs := by
  cases h with
  | start _ hlines => exact ⟨ks, [], hlines, .inl rfl, (List.append_nil ks).symm⟩
  | @within lines opening ink _ hks hlines hopening hink hnext =>
      have hne : ink ≠ [] := by
        refine hnext.resolve_right ?_
        rintro ⟨c, cs, hrest, -⟩
        rw [hend] at hrest
        cases hrest
      exact ⟨lines, opening ++ ink, hlines,
        .inr (Kind.mem_line_iff.mpr ⟨opening, ink, hopening, hne, hink, rfl⟩), hks⟩

theorem map_kind_finish (s : Scan) : s.finish.map Token.kind = s.levels.close ++ [.eof] := by
  simp [finish, Function.comp_def, Token.layout]

theorem mem_close {l : Levels} {k : Kind} (h : k ∈ l.close) : k = .dedent := by
  obtain ⟨-, -, rfl⟩ := List.mem_map.mp h
  rfl

end Scan

/-- The tokens of a source are lines, each with a written token and with at most one indent, then
the dedents that are left, and one end mark. At every point as many levels as were closed had been
opened, and at the end all are closed. -/
theorem scan_lines {mode : Mode} {source : String} {ts : List Token}
    (h : scan mode source = .ok ts) :
    ts.map Token.kind ∈ Kind.stream ∧
      (∀ us, us <+: ts.map Token.kind → us.count .dedent ≤ us.count .indent) ∧
      (ts.map Token.kind).count .indent = (ts.map Token.kind).count .dedent ∧
      (∃ us, ts.map Token.kind = us ++ [.eof] ∧ .eof ∉ us) ∧
      Kind.BreaksEndLines (ts.map Token.kind) ∧ Kind.IndentsApart (ts.map Token.kind) := by
  obtain ⟨xs, t, hreach, hend, rfl⟩ := scan_eq_ok_iff.mp h
  have hstands : Scan.Stands (([] ++ xs).map Token.kind) t :=
    hreach.invariant (I := fun ws s ↦ Scan.Stands (ws.map Token.kind) s)
      (fun _ _ _ _ ↦ Scan.Step.stands) (Scan.start_stands source)
  obtain ⟨us, vs, hus, hvs, hks⟩ := hstands.exists_lines hend
  have hstream : (xs ++ t.finish).map Token.kind ∈ Kind.stream := by
    refine Kind.mem_stream_iff.mpr ⟨us, vs, t.levels.close, hus, hvs, fun _ ↦ Scan.mem_close, ?_⟩
    rw [List.map_append, Scan.map_kind_finish, ← hks, List.nil_append, List.append_assoc]
  have hlevels : excess xs = t.levels.widths.length := by
    have hxs := hreach.excess_eq
    have hstart : (Scan.start source).levels.widths.length = 0 := rfl
    omega
  have hopen : StaysOpen 0 (xs ++ t.finish) := by
    refine StaysOpen.append hreach.staysOpen ?_
    rw [hlevels, Int.zero_add]
    exact t.finish_staysOpen
  have hbalance : excess (xs ++ t.finish) = 0 := by
    have hclosed := t.excess_dedents
    rw [Scan.finish_eq, excess_append, excess_append, hlevels]
    show _ + (_ + (0 + 0 : Int)) = 0
    omega
  refine ⟨hstream, fun ks hprefix ↦ ?_, ?_, Kind.exists_eof_of_mem_stream hstream,
    .of_mem_stream hstream, .of_mem_stream hstream⟩
  · obtain ⟨ws, hws, rfl⟩ := List.prefix_map_iff.mp hprefix
    have hws := hopen ws hws
    rw [excess_eq_count_sub] at hws
    omega
  · rw [excess_eq_count_sub] at hbalance
    omega

/-- The second line opens a level, and the last one, behind two lines without tokens, closes it
and has no line break. -/
theorem scan_lines_block :
    let source := "if a:\n  b\n\n # c\nd"
    let ts : List Token := [⟨.keyword .ifKw, "if", none, ⟨1, 1⟩⟩,
      ⟨.identifier, "a", some (.text "a"), ⟨1, 4⟩⟩, ⟨.mark .colon, ":", none, ⟨1, 5⟩⟩,
      ⟨.newline, "\n", none, ⟨1, 6⟩⟩, .layout .indent ⟨2, 1⟩,
      ⟨.identifier, "b", some (.text "b"), ⟨2, 3⟩⟩, ⟨.newline, "\n", none, ⟨2, 4⟩⟩,
      .layout .dedent ⟨5, 1⟩, ⟨.identifier, "d", some (.text "d"), ⟨5, 1⟩⟩,
      .layout .eof ⟨5, 2⟩]
    scan .strict source = .ok ts ∧
      [.keyword .ifKw, .identifier, .mark .colon, .newline, .indent, .identifier, .newline,
        .dedent, .identifier, .eof] ∈ Kind.stream ∧
      (∀ us, us <+: ts.map Token.kind → us.count .dedent ≤ us.count .indent) := by
  intro source ts
  have hscan : scan .strict source = .ok ts := by decide +kernel
  obtain ⟨hstream, hopen, -⟩ := scan_lines hscan
  exact ⟨hscan, hstream, hopen⟩

end Offside
