import Offside.Proofs.Grammar.Transport
import Offside.Proofs.Scan.Alike
import Offside.Proofs.Scan.Relaid
import Offside.Proofs.Strings

/-!
# Line breaks of two characters

A carriage return in front of each line break is a blank or a part of the comment there. So the
source has the same tokens with it as without it, except that the tokens of the line breaks stand
one column further on, and it means the same program, if no string goes over a line break.
-/

namespace Offside

open Piece

/-- With a carriage return in front of each line break. -/
def crlf (cs : List Char) : List Char :=
  cs.flatMap fun c ↦ if c = '\n' then ['\r', '\n'] else [c]

variable {c : Char} {cs : List Char}

theorem crlf_newline (cs : List Char) : crlf ('\n' :: cs) = '\r' :: '\n' :: crlf cs := rfl

theorem crlf_cons_of_ne (hc : c ≠ '\n') (cs : List Char) : crlf (c :: cs) = c :: crlf cs := by
  simp [crlf, hc]

theorem crlf_append_of_notMem (hcs : '\n' ∉ cs) (ds : List Char) :
    crlf (cs ++ ds) = cs ++ crlf ds := by
  induction cs with
  | nil => rfl
  | cons c cs ih =>
      obtain ⟨hc, hcs⟩ := not_or.mp (List.mem_cons.not.mp hcs)
      rw [List.cons_append, crlf_cons_of_ne (Ne.symm hc), ih hcs, List.cons_append]

theorem crlf_of_notMem (hcs : '\n' ∉ cs) : crlf cs = cs := by
  rw [← List.append_nil cs, crlf_append_of_notMem hcs]
  rfl

/-- A line break ends the line wherever it stands. -/
theorem Position.pastAll_return (p : Position) (cs : List Char) :
    p.pastAll (cs ++ ['\r', '\n']) = p.pastAll (cs ++ ['\n']) := by
  rw [pastAll_append, pastAll_append]
  rfl

/-- The token of a line break stands elsewhere on its line. -/
def Token.moveBreak (f : Position → Position) (t : Token) : Token :=
  if t.kind = .newline then { t with position := f t.position } else t

/-- Behind a carriage return. -/
def Position.behindReturn (p : Position) : Position :=
  { p with column := p.column + 1 }

namespace Token

variable {f g : Position → Position} {t : Token}

@[simp] theorem kind_moveBreak (t : Token) : (t.moveBreak f).kind = t.kind := by
  unfold moveBreak
  split <;> rfl

theorem moveBreak_of_ne (h : t.kind ≠ .newline) : t.moveBreak f = t :=
  if_neg h

theorem moveBreak_of_eq (h : t.kind = .newline) :
    t.moveBreak f = { t with position := f t.position } :=
  if_pos h

theorem moveBreak_moveBreak (hfg : ∀ p, g (f p) = p) (t : Token) :
    (t.moveBreak f).moveBreak g = t := by
  by_cases h : t.kind = .newline
  · rw [moveBreak_of_eq (t.kind_moveBreak.trans h), moveBreak_of_eq h, hfg]
  · rw [moveBreak_of_ne (t.kind_moveBreak.trans_ne h), moveBreak_of_ne h]

end Token

section Parsing

variable (f : Position → Position) {mode : Mode} {ts us : List Token} {p : Program}

theorem firstKind_map_moveBreak (ts : List Token) :
    firstKind (ts.map (Token.moveBreak f)) = firstKind ts := by
  cases ts with
  | nil => rfl
  | cons t ts => exact t.kind_moveBreak

theorem content_map_moveBreak (ts : List Token) :
    content (ts.map (Token.moveBreak f)) = (content ts).map (Token.moveBreak f) := by
  have hkind : (fun t : Token ↦ decide (t.kind ≠ .eof)) ∘ Token.moveBreak f =
      fun t ↦ decide (t.kind ≠ .eof) :=
    funext fun t ↦ by simp
  rw [content, content, List.takeWhile_map, hkind]

theorem Breaks.moveBreak (h : Breaks ts us) :
    Breaks (ts.map (Token.moveBreak f)) (us.map (Token.moveBreak f)) := by
  induction h with
  | refl _ => exact .refl _
  | @cons t _ _ hkind _ ih => exact .cons (t.kind_moveBreak.trans hkind) ih

/-- Where its line breaks stand does not matter to a program. -/
theorem parse_map_moveBreak (h : parse mode ts = .ok p) :
    parse mode (ts.map (Token.moveBreak f)) = .ok p := by
  have hcarries : (Layout.exact mode).Carries (.exact mode)
      (fun ts ts' ↦ ts.map (Token.moveBreak f) = ts')
      (fun ts ts' ↦ ts.map (Token.moveBreak f) = ts') := by
    refine .of_map id ?_ ?_ (fun _ _ ↦ Breaks.moveBreak f) ?_
    · intro t ts hne _
      rw [List.map_cons, Token.moveBreak_of_ne hne]
    · intro ts hend
      rwa [firstKind_map_moveBreak]
    · intro s us hends
      show s.EndsBefore _
      rwa [firstKind_map_moveBreak]
  exact parse_of_translates hcarries.translates (fun _ h ↦ h.symm) h
    (content_map_moveBreak f ts).symm

end Parsing

/-- The line breaks can be put back where they were. -/
theorem parse_behindReturn_iff {mode : Mode} {ts : List Token} {p : Program} :
    parse mode (ts.map (Token.moveBreak .behindReturn)) = .ok p ↔ parse mode ts = .ok p := by
  refine ⟨fun h ↦ ?_, parse_map_moveBreak _⟩
  let back (q : Position) : Position := { q with column := q.column - 1 }
  have hback (q : Position) : back q.behindReturn = q := by
    simp [back, Position.behindReturn]
  have hmap : Token.moveBreak back ∘ Token.moveBreak .behindReturn = id :=
    funext (Token.moveBreak_moveBreak hback)
  have h := parse_map_moveBreak back h
  rwa [List.map_map, hmap, List.map_id] at h

namespace Piece

/-- What goes on up to a line break takes the carriage return in front of it along. -/
theorem takeWhile_crlf {q : Char → Bool} (hbreak : q '\n' = false) (hreturn : q '\r')
    (cs : List Char) :
    (crlf cs).takeWhile q = cs.takeWhile q ∧ (crlf cs).dropWhile q = crlf (cs.dropWhile q) ∨
      ∃ rest, cs.dropWhile q = '\n' :: rest ∧ (crlf cs).takeWhile q = cs.takeWhile q ++ ['\r'] ∧
        (crlf cs).dropWhile q = '\n' :: crlf rest := by
  induction cs with
  | nil => exact .inl ⟨rfl, rfl⟩
  | cons c cs ih =>
      by_cases hc : c = '\n'
      · subst hc
        refine .inr ⟨cs, ?_⟩
        simp [crlf_newline, hbreak, hreturn]
      rw [crlf_cons_of_ne hc]
      by_cases hq : q c
      · simpa [hq] using ih
      · refine .inl ?_
        simp [hq, crlf_cons_of_ne hc]

theorem abreast_crlf (cs : List Char) :
    Abreast (fun c ↦ c = '\n' ∨ c = '\r') (fun cs ds ↦ crlf cs = ds) cs (crlf cs) := by
  cases cs with
  | nil => exact .nil
  | cons c cs =>
      by_cases hc : c = '\n'
      · subst hc
        exact .parts (.inl rfl) (.inr rfl)
      · rw [crlf_cons_of_ne hc]
        exact .same rfl

/-- A word, a number or a mark is cut in the same way, and so is a string that does not go over a
line break. -/
theorem at?_crlf {p : Piece} (hpiece : at? c cs = some p) (hlead : Leads c)
    (hstring : isQuote c → '\n' ∉ p.lexeme) :
    at? c (crlf cs) = some { p with rest := crlf p.rest } := by
  by_cases hquote : isQuote c
  · have hlexeme := hstring hquote
    by_cases hclosed : ∃ body rest, Lexeme.Unescaped c cs body rest
    · obtain ⟨body, rest, h⟩ := hclosed
      obtain ⟨body, rest, hends⟩ := h.exists_endsAt
      have hcut := at?_of_decodes hquote hends.decodes rest
      obtain rfl := hends.split
      obtain rfl := Option.some.inj (hpiece.symm.trans hcut)
      have hbody : '\n' ∉ body := fun hmem ↦ hlexeme (by simp [hmem])
      rw [crlf_append_of_notMem hbody, crlf_cons_of_ne hlead.2.1,
        at?_of_decodes hquote hends.decodes]
    · simp only [not_exists] at hclosed
      have hcut := at?_of_open hquote hclosed
      obtain rfl := Option.some.inj (hpiece.symm.trans hcut)
      have hcs : '\n' ∉ cs := fun hmem ↦ hlexeme (List.mem_cons_of_mem c hmem)
      rw [crlf_of_notMem hcs]
      exact hcut
  · have hparts : ∀ c, c = '\n' ∨ c = '\r' → Parts c := by
      rintro c (rfl | rfl) <;> decide
    have habreast {cs ds : List Char} (h : crlf cs = ds) :
        Abreast (fun c ↦ c = '\n' ∨ c = '\r') (fun cs ds ↦ crlf cs = ds) cs ds :=
      h ▸ abreast_crlf cs
    have hrel : Option.Rel (Same fun cs ds ↦ crlf cs = ds) (at? c cs) (at? c (crlf cs)) :=
      at?_abreast (fun _ _ ↦ habreast) hparts hlead hquote rfl
    rw [hpiece] at hrel
    generalize at? c (crlf cs) = x at hrel ⊢
    cases hrel with
    | some h =>
        obtain ⟨hshape, hlexeme, hrest⟩ := h
        rw [hshape, hlexeme, hrest]

theorem Idle.append_return {line : List Char} (h : Idle line) : Idle (line ++ ['\r']) := by
  obtain ⟨blanks, note, rfl, hblanks, rfl | ⟨comment, rfl, hcomment⟩⟩ := h
  · refine ⟨blanks ++ ['\r'], [], by simp, ?_, .inl rfl⟩
    exact List.forall_mem_append.mpr ⟨hblanks, List.forall_mem_singleton.mpr rfl⟩
  · refine ⟨blanks, '#' :: (comment ++ ['\r']), by simp, hblanks, .inr ⟨_, rfl, ?_⟩⟩
    simpa using hcomment

end Piece

namespace Scan

variable {mode : Mode} {s s' t : Scan} {xs : List Token}

/-- The same place of a source with carriage returns, in front of the one at a line break or
behind it. -/
inductive InReturns : Scan → Scan → Prop
  | same {cs : List Char} {p : Position} {l : Levels} {lineStart : Bool} :
      InReturns ⟨⟨cs, p⟩, l, lineStart⟩ ⟨⟨crlf cs, p⟩, l, lineStart⟩
  | behindReturn {cs : List Char} {p : Position} {l : Levels} :
      InReturns ⟨⟨'\n' :: cs, p⟩, l, false⟩ ⟨⟨'\n' :: crlf cs, p.behindReturn⟩, l, false⟩

/-- Some steps add the same tokens, but for those of line breaks, and come to the same place. -/
def GoesOn (mode : Mode) (t : Scan) (xs : List Token) (s : Scan) : Prop :=
  ∃ t', Reaches mode t (xs.map (Token.moveBreak .behindReturn)) t' ∧ InReturns s t'

variable {l : Levels} {p : Position}

theorem map_moveBreak_layout {f : Position → Position} {ks : List Kind}
    (hks : ∀ k ∈ ks, k ≠ .newline) :
    (ks.map (Token.layout · p)).map (Token.moveBreak f) = ks.map (Token.layout · p) := by
  rw [List.map_map]
  exact List.map_congr_left fun k hk ↦ Token.moveBreak_of_ne (hks k hk)

theorem Step.skip {r : Reader} {x : Piece} (hrest : r.rest = c :: cs) (hpiece : at? c cs = some x)
    (hshape : x.shape = .blank ∨ x.shape = .comment) :
    Step mode ⟨r, l, false⟩ [] ⟨r.past x.lexeme x.rest, l, false⟩ := by
  have htoken : x.token? mode r.position = .ok none := by
    rcases hshape with h | h <;> simp [token?, h]
  have hflag : decide (x.shape = .lineBreak) = false := by
    rcases hshape with h | h <;> simp [h]
  have hstep : Step mode ⟨r, l, false⟩ (Option.toList none) _ := .piece hrest hpiece htoken
  rwa [hflag] at hstep

/-- Blanks and comments end in front of a line break or behind the carriage return there. -/
theorem goesOn_skip {shape : Shape} (hshape : shape = .blank ∨ shape = .comment) {q : Char → Bool}
    (hbreak : q '\n' = false) (hreturn : q '\r')
    (hpiece : ∀ cs, at? c cs = some (Piece.run shape q c cs)) :
    GoesOn mode ⟨⟨c :: crlf cs, p⟩, l, false⟩ []
      ⟨⟨cs.dropWhile q, p.pastAll (c :: cs.takeWhile q)⟩, l, false⟩ := by
  refine ⟨_, .single (.skip rfl (hpiece _) hshape), ?_⟩
  rcases takeWhile_crlf hbreak hreturn cs with ⟨htake, hdrop⟩ | ⟨rest, hrest, htake, hdrop⟩
  · simp only [Reader.past, Piece.run, htake, hdrop]
    exact .same
  · simp only [Reader.past, Piece.run, htake, hdrop, hrest]
    rw [← List.cons_append, Position.pastAll_append]
    exact .behindReturn

theorem goesOn_newline : GoesOn mode ⟨⟨'\n' :: crlf cs, p.behindReturn⟩, l, false⟩
    [⟨.newline, "\n", none, p⟩] ⟨⟨cs, p.past '\n'⟩, l, true⟩ :=
  ⟨_, .single (.newline mode (crlf cs) l p.behindReturn), .same⟩

theorem goesOn_return : GoesOn mode ⟨⟨'\r' :: '\n' :: crlf cs, p⟩, l, false⟩
    [⟨.newline, "\n", none, p⟩] ⟨⟨cs, p.past '\n'⟩, l, true⟩ := by
  have hnewline : GoesOn mode ⟨⟨'\n' :: crlf cs, p.behindReturn⟩, l, false⟩
      [⟨.newline, "\n", none, p⟩] ⟨⟨cs, p.past '\n'⟩, l, true⟩ := goesOn_newline
  obtain ⟨t, hreach, ht⟩ := hnewline
  have hpiece : at? '\r' ('\n' :: crlf cs) = some ⟨.blank, ['\r'], '\n' :: crlf cs⟩ := rfl
  exact ⟨t, .step (.skip rfl hpiece (.inl rfl)) hreach, ht⟩

/-- A string is a token with the whole of its text. -/
theorem newline_notMem_of_string {x : Piece} {token : Option Token} (hpiece : at? c cs = some x)
    (htoken : x.token? mode p = .ok token)
    (hxs : ∀ t ∈ token.toList, t.kind = .string → '\n' ∉ t.lexeme.toList) (hquote : isQuote c) :
    '\n' ∉ x.lexeme := by
  obtain rfl := Option.some.inj (hpiece.symm.trans (at?_of_isQuote hquote cs))
  obtain ⟨-, text, closed, -, hshape, -⟩ :=
    stringFrom_closes (ne_backslash_of_isQuote hquote) [] [c] cs
  obtain ⟨t, rfl, hkind, hlexeme⟩ := token?_of_string hshape htoken
  have ht := hxs t (by simp) hkind
  rwa [hlexeme, String.toList_ofList] at ht

theorem goesOn_piece {x : Piece} {token : Option Token} (hpiece : at? c cs = some x)
    (htoken : x.token? mode p = .ok token)
    (hxs : ∀ t ∈ token.toList, t.kind = .string → '\n' ∉ t.lexeme.toList) :
    GoesOn mode ⟨⟨crlf (c :: cs), p⟩, l, false⟩ token.toList
      ⟨⟨x.rest, p.pastAll x.lexeme⟩, l, x.shape = .lineBreak⟩ := by
  by_cases hbreak : c = '\n'
  · subst hbreak
    cases hpiece
    cases htoken
    exact goesOn_return
  rw [crlf_cons_of_ne hbreak]
  by_cases hblank : isBlank c
  · have hcut (cs : List Char) : at? c cs = some (Piece.run .blank isBlank c cs) := by
      rw [at?, if_pos hblank]
    obtain rfl := Option.some.inj (hpiece.symm.trans (hcut cs))
    cases htoken
    exact goesOn_skip (.inl rfl) rfl rfl hcut
  by_cases hnote : c = '#'
  · subst hnote
    cases hpiece
    cases htoken
    exact goesOn_skip (.inr rfl) rfl rfl fun _ ↦ rfl
  have hcut := at?_crlf hpiece ⟨hblank, hbreak, hnote⟩ (newline_notMem_of_string hpiece htoken hxs)
  have htokens : token.toList.map (Token.moveBreak .behindReturn) = token.toList := by
    rcases token?_cases htoken with ⟨-, rfl⟩ | ⟨hshape, -⟩ | ⟨-, t, rfl, ht⟩
    · rfl
    · exact absurd hshape (shape_ne_lineBreak hbreak hpiece)
    · exact congrArg ([·]) (Token.moveBreak_of_ne ht.ne_newline)
  have hstep : Step mode ⟨⟨c :: crlf cs, p⟩, l, false⟩ token.toList _ :=
    .piece (r := ⟨_, p⟩) rfl hcut htoken
  rw [← htokens] at hstep
  exact ⟨_, .single hstep, .same⟩

theorem Step.goesOn (h : Step mode s xs s') (hs : InReturns s t)
    (hxs : ∀ x ∈ xs, x.kind = .string → '\n' ∉ x.lexeme.toList) : GoesOn mode t xs s' := by
  cases hs with
  | @behindReturn cs p l =>
      cases h with
      | piece hrest hpiece htoken =>
          obtain ⟨rfl, rfl⟩ := List.cons.inj hrest
          cases hpiece
          cases htoken
          exact goesOn_newline
  | @same cs p l lineStart =>
      cases h with
      | @drop _ _ line rest hrest hidle =>
          obtain rfl : cs = line ++ '\n' :: rest := hrest
          have hline := hidle.newline_notMem
          have hrest : crlf (line ++ '\n' :: rest) = (line ++ ['\r']) ++ '\n' :: crlf rest := by
            rw [crlf_append_of_notMem hline, crlf_newline, List.append_assoc]
            rfl
          refine ⟨_, .single (.drop (r := ⟨_, p⟩) hrest hidle.append_return), ?_⟩
          rw [List.append_assoc, Reader.past, Reader.past, List.singleton_append,
            Position.pastAll_return]
          exact .same
      | dropLast hrest hidle =>
          have hcs : crlf cs = cs := crlf_of_notMem hidle.newline_notMem
          refine ⟨_, .single (.dropLast (r := ⟨_, p⟩) (hcs.symm ▸ hrest) (hcs.symm ▸ hidle)), ?_⟩
          rw [hcs]
          exact .same
      | @settle _ _ blanks rest c hrest hblanks hlead hmode =>
          obtain rfl : cs = blanks ++ c :: rest := hrest
          have hblank : '\n' ∉ blanks := fun hmem ↦ absurd (hblanks _ hmem) (by decide)
          have hrest : crlf (blanks ++ c :: rest) = blanks ++ c :: crlf rest := by
            rw [crlf_append_of_notMem hblank, crlf_cons_of_ne hlead.2.1]
          have hkinds : ∀ k ∈ (l.settle (indentWidth blanks)).1, k ≠ .newline := by
            intro k hk
            rcases kind_of_mem_settle hk with rfl | rfl <;> decide
          have hstep : Step mode ⟨⟨crlf (blanks ++ c :: rest), p⟩, l, true⟩ _ _ :=
            .settle (r := ⟨_, p⟩) hrest hblanks hlead hmode
          rw [← map_moveBreak_layout (f := .behindReturn) hkinds] at hstep
          refine ⟨_, .single hstep, ?_⟩
          rw [Reader.past, Reader.past, ← crlf_cons_of_ne hlead.2.1]
          exact .same
      | @piece _ _ c cs x token hrest hpiece htoken =>
          obtain rfl := hrest
          exact goesOn_piece hpiece htoken hxs

theorem Reaches.goesOn (h : Reaches mode s xs s') (hs : InReturns s t)
    (hxs : ∀ x ∈ xs, x.kind = .string → '\n' ∉ x.lexeme.toList) : GoesOn mode t xs s' := by
  induction h generalizing t with
  | refl s => exact ⟨t, .refl t, hs⟩
  | step hstep _ ih =>
      obtain ⟨hxs, hys⟩ := List.forall_mem_append.mp hxs
      obtain ⟨u, hreach, hu⟩ := hstep.goesOn hs hxs
      obtain ⟨v, hreach', hv⟩ := ih hu hys
      refine ⟨v, ?_, hv⟩
      rw [List.map_append]
      exact hreach.trans hreach'

end Scan

/-- A source and the same source with line breaks of two characters are scanned alike, and they
mean the same program or none. -/
theorem scan_crlf {mode : Mode} {source : String} {ts : List Token}
    (h : scan mode source = .ok ts)
    (hstrings : ∀ t ∈ ts, t.kind = .string → '\n' ∉ t.lexeme.toList) :
    scan mode (.ofList (crlf source.toList)) = .ok (ts.map (Token.moveBreak .behindReturn)) ∧
      ∀ p, run mode source = .ok p ↔ run mode (.ofList (crlf source.toList)) = .ok p := by
  have hscan : scan mode (.ofList (crlf source.toList)) =
      .ok (ts.map (Token.moveBreak .behindReturn)) := by
    obtain ⟨xs, s, hreach, hend, rfl⟩ := scan_eq_ok_iff.mp h
    have hstart : Scan.InReturns (.start source) (.start (.ofList (crlf source.toList))) := by
      rw [Scan.start, Scan.start, Reader.ofString, Reader.ofString, String.toList_ofList]
      exact .same
    obtain ⟨t, hreach', ht⟩ :=
      hreach.goesOn hstart fun x hx ↦ hstrings x (List.mem_append_left _ hx)
    refine scan_eq_ok_iff.mpr ⟨_, t, hreach', ?_⟩
    cases ht with
    | behindReturn => cases hend
    | @same cs p l _ =>
        obtain rfl : cs = [] := hend
        refine ⟨rfl, ?_⟩
        have hkinds : ∀ k ∈ l.close ++ [.eof], k ≠ .newline := by
          intro k hk
          rcases List.mem_append.mp hk with hk | hk
          · rw [Scan.mem_close hk]
            decide
          · rw [List.mem_singleton.mp hk]
            decide
        rw [List.map_append, Scan.finish, Scan.map_moveBreak_layout hkinds]
        rfl
  refine ⟨hscan, fun p ↦ ?_⟩
  rw [run_eq_parse h, run_eq_parse hscan, parse_behindReturn_iff]

/-- The carriage returns stand behind a comment, in a line without tokens and behind a token. -/
theorem scan_crlf_comment :
    let source := "if x: # x\n\n  y\n"
    let ts : List Token := [⟨.keyword .ifKw, "if", none, ⟨1, 1⟩⟩,
      ⟨.identifier, "x", some (.text "x"), ⟨1, 4⟩⟩, ⟨.mark .colon, ":", none, ⟨1, 5⟩⟩,
      ⟨.newline, "\n", none, ⟨1, 10⟩⟩, .layout .indent ⟨3, 1⟩,
      ⟨.identifier, "y", some (.text "y"), ⟨3, 3⟩⟩, ⟨.newline, "\n", none, ⟨3, 4⟩⟩,
      .layout .dedent ⟨4, 1⟩, .layout .eof ⟨4, 1⟩]
    let source' := "if x: # x\r\n\r\n  y\r\n"
    scan .strict source = .ok ts ∧
      (∀ t ∈ ts, t.kind = .string → '\n' ∉ t.lexeme.toList) ∧
      scan .strict source' = .ok (ts.map (Token.moveBreak .behindReturn)) ∧
      ∀ p, run .strict source = .ok p ↔ run .strict source' = .ok p := by
  intro source ts source'
  have hscan : scan .strict source = .ok ts := by decide +kernel
  have hstrings : ∀ t ∈ ts, t.kind = .string → '\n' ∉ t.lexeme.toList := by
    have hnone : ∀ t ∈ ts, t.kind ≠ .string := by decide +kernel
    exact fun t ht hkind ↦ absurd hkind (hnone t ht)
  have hsource : String.ofList (crlf source.toList) = source' := by decide +kernel
  have h := scan_crlf hscan hstrings
  rw [hsource] at h
  exact ⟨hscan, hstrings, h⟩

end Offside
