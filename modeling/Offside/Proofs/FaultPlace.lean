import Offside.Proofs.Parse.ViableLevel

/-!
# Where faults stand

The token that a fault of the grammar names is the first that cannot stand where it stands: what
has been read before it can be completed to a program, and what stands behind it is never looked
at.
-/

namespace Offside

theorem ne_eof_of_content_eq_append {ts used us : List Token} (h : content ts = used ++ us) :
    ∀ t ∈ used, t.kind ≠ .eof :=
  fun _ ht ↦ kind_ne_eof_of_mem_content (h ▸ List.mem_append_left us ht)

namespace Cursor

theorem exists_sealTokens_eq_append (ts : List Token) : ∃ us, sealTokens ts = ts ++ us := by
  unfold sealTokens
  split
  · next h =>
      rw [List.getLast?_eq_none_iff] at h
      exact ⟨_, by rw [h, List.nil_append]⟩
  · next last _ =>
      by_cases hlast : last.kind = .eof
      · exact ⟨[], by rw [if_pos hlast, List.append_nil]⟩
      · exact ⟨_, if_neg hlast⟩

theorem stop_ofTokens {ts : List Token} {t : Token} (hts : ∀ u ∈ ts, u.kind ≠ .eof)
    (ht : t.kind = .eof) (mode : Mode) (us : List Token) :
    (ofTokens mode (ts ++ t :: us)).stop = t := by
  obtain ⟨vs, hvs⟩ := exists_sealTokens_eq_append (ts ++ t :: us)
  have hseal := sealTokens_eq mode (ts ++ t :: us)
  rw [hvs, content_append hts, content_cons_of_eof ht, List.append_nil, List.append_assoc,
    List.append_cancel_left_eq, List.cons_append] at hseal
  exact (List.cons.inj hseal).1.symm

theorem ofTokens_hasRoom (mode : Mode) (ts : List Token) :
    (ofTokens mode ts).HasRoom nestingLimit :=
  ⟨(ofTokens_proper mode ts).1, Nat.zero_add _⟩

theorem ofTokens_twin (mode : Mode) (ts us : List Token) :
    (ofTokens mode ts).Twin (ofTokens mode us) :=
  ⟨(ofTokens_proper mode us).1, rfl, rfl, rfl⟩

/-- The token behind `used`, and what follows it in the list. -/
theorem exists_sealTokens_eq_cons {ts used us : List Token} (mode : Mode)
    (h : content ts = used ++ us) :
    ∃ vs, sealTokens ts = used ++ ((ofTokens mode ts).facing us).current :: vs := by
  rw [sealTokens_eq mode ts, h, List.append_assoc]
  cases us with
  | nil => exact ⟨_, rfl⟩
  | cons u us => exact ⟨_, rfl⟩

/-- Tokens that begin in the same way up to the one behind `used` go on alike there. -/
theorem exists_sameNext {ts used us vs : List Token} (mode : Mode) (hts : content ts = used ++ us)
    (hvs : vs.take (used.length + 1) = (sealTokens ts).take (used.length + 1)) :
    ∃ ws, content vs = used ++ ws ∧ (ofTokens mode ts).SameNext us (ofTokens mode vs) ws := by
  have hused := ne_eof_of_content_eq_append hts
  obtain ⟨xs, hseal⟩ := exists_sealTokens_eq_cons mode hts
  have hbegin : vs.take (used.length + 1) = used ++ [((ofTokens mode ts).facing us).current] := by
    rw [hvs, hseal, List.take_length_add_append, List.take_one]
    rfl
  have hsplit : used ++ ((ofTokens mode ts).facing us).current :: vs.drop (used.length + 1) =
      vs := by
    rw [← List.singleton_append, ← List.append_assoc, ← hbegin, List.take_append_drop]
  rw [← hsplit, content_append hused]
  cases us with
  | nil =>
      have hstop := (ofTokens_proper mode ts).1
      refine ⟨[], ?_, rfl, fun _ ↦ stop_ofTokens hused hstop mode _⟩
      exact congrArg (used ++ ·) (content_cons_of_eof hstop _)
  | cons u us =>
      have hmem : u ∈ content ts := by simp [hts]
      have hu := content_cons_of_ne (kind_ne_eof_of_mem_content hmem) (vs.drop (used.length + 1))
      exact ⟨_, congrArg (used ++ ·) hu, rfl, nofun⟩

end Cursor

/-- What completes the tokens read so far makes a program of them. -/
theorem Parse.Finishes.exists_parse {mode : Mode} {ts used : List Token}
    (h : Finishes (Cursor.ofTokens mode ts) (· = .eof) program used)
    (hused : ∀ t ∈ used, t.kind ≠ .eof) : ∃ us p, used <+: us ∧ parse mode us = .ok p := by
  obtain ⟨ks, hok⟩ := h
  obtain ⟨hks, p, hp⟩ := hok [] rfl
  rw [List.append_nil] at hp
  have hread : ∀ t ∈ used ++ tokensOf ks, t.kind ≠ .eof := by
    intro t ht heof
    rcases List.mem_append.mp ht with ht | ht
    · exact hused t ht heof
    · obtain ⟨k, hk, rfl⟩ := List.mem_map.mp ht
      exact hks (heof ▸ hk)
  have hstop := (Cursor.ofTokens_proper mode ts).1
  let us := (used ++ tokensOf ks) ++ [(Cursor.ofTokens mode ts).stop]
  have hcontent : content us = (used ++ tokensOf ks) ++ [] := by
    rw [content_append hread, content_cons_of_eof hstop]
  have hagain : program ((Cursor.ofTokens mode us).facing ((used ++ tokensOf ks) ++ [])) =
      .ok p ((Cursor.ofTokens mode us).facing []) := by
    refine SteadyAt.again ((program_viable nestingLimit).steady (Cursor.ofTokens_hasRoom mode ts) _)
      ?_ (Cursor.ofTokens_twin mode ts us) ⟨rfl, fun _ ↦ Cursor.stop_ofTokens hread hstop mode []⟩
    rwa [List.append_nil]
  refine ⟨us, p, ?_, parse_eq_ok_iff_program.mpr ⟨_, hcontent ▸ hagain⟩⟩
  exact (List.prefix_append used (tokensOf ks)).trans (List.prefix_append _ _)

/-- A parser rejects a token at the first place where it cannot stand. The tokens up to there
settle the fault, and if not all levels are open the tokens before it are the beginning of a
program. -/
theorem parse_error_place {mode : Mode} {ts : List Token} {f : Fault} {found : String}
    (h : parse mode ts = .error f) (hf : f.cause.found? = some found) :
    ∃ i t, (Cursor.sealTokens ts)[i]? = some t ∧
      (∀ u ∈ (Cursor.sealTokens ts).take i, u.kind ≠ .eof) ∧
      f.position = t.position ∧ found = t.describe ∧
      (∀ us, us.take (i + 1) = (Cursor.sealTokens ts).take (i + 1) → parse mode us = .error f) ∧
      ((Parse.program.apply (Cursor.ofTokens mode ts)).2.depth < nestingLimit →
        ∃ us p, (Cursor.sealTokens ts).take i <+: us ∧ parse mode us = .ok p) := by
  obtain ⟨d, hrun⟩ := parse_eq_error_iff_program.mp h
  have hc := Cursor.ofTokens_hasRoom mode ts
  have hplace : (Parse.program.apply (Cursor.ofTokens mode ts)).2 = d := by
    rw [Parse.apply, Cursor.ofTokens_eq, hrun]
  rw [hplace]
  have hout := (Parse.program_viable nestingLimit).steady hc (content ts)
  unfold Parse.SteadyAt at hout
  rw [hrun] at hout
  generalize hts : content ts = xs at hout
  cases hout with
  | other hnone =>
      rw [hnone] at hf
      cases hf
  | @found used us _ _ hd hnames hagain hfinish =>
      obtain ⟨hfound, hposition⟩ := hnames
      obtain ⟨vs, hseal⟩ := Cursor.exists_sealTokens_eq_cons mode hts
      have hused := ne_eof_of_content_eq_append hts
      have htake : (Cursor.sealTokens ts).take used.length = used := by
        rw [hseal, List.take_left]
      refine ⟨used.length, d.current, ?_, ?_, hposition, ?_, fun ws hws ↦ ?_, fun hroom ↦ ?_⟩
      · rw [hseal, hd.current, List.getElem?_append_right (Nat.le_refl _), Nat.sub_self]
        rfl
      · rwa [htake]
      · exact Option.some.inj (hf.symm.trans hfound)
      · obtain ⟨xs, hxs, hnext⟩ := Cursor.exists_sameNext mode hts hws
        obtain ⟨e, herror⟩ := hagain _ xs (Cursor.ofTokens_twin mode ts ws) hnext
        exact parse_eq_error_iff_program.mpr ⟨e, hxs ▸ herror⟩
      · rw [htake]
        have hcompletes :
            Parse.Finishes (Cursor.ofTokens mode ts) (· = .eof) Parse.program used := by
          by_cases hne : used = []
          · rw [hne]
            exact (Parse.program_viable nestingLimit).toFresh.finishes hc
          · exact hfinish (hd.limit ▸ hroom) hne
        exact hcompletes.exists_parse hused

/-- In `f(]` the bracket cannot stand, and `f(` begins a program. -/
theorem parse_error_place_bracket :
    let token (k : Kind) (lexeme : String) (column : UInt32) : Token :=
      ⟨k, lexeme, none, ⟨1, column⟩⟩
    let ts := [token .identifier "f" 1, token (.mark .openParen) "(" 2,
      token (.mark .closeBracket) "]" 3]
    let f : Fault := ⟨.expectedExpression "`]`", ⟨1, 3⟩⟩
    parse .strict ts = .error f ∧ f.cause.found? = some "`]`" ∧
      ∃ i t, (Cursor.sealTokens ts)[i]? = some t ∧
        (∀ u ∈ (Cursor.sealTokens ts).take i, u.kind ≠ .eof) ∧
        f.position = t.position ∧ "`]`" = t.describe ∧
        (∀ us, us.take (i + 1) = (Cursor.sealTokens ts).take (i + 1) →
          parse .strict us = .error f) ∧
        ∃ us p, (Cursor.sealTokens ts).take i <+: us ∧ parse .strict us = .ok p := by
  intro token ts f
  have h : parse .strict ts = .error f := rfl
  have hroom : (Parse.program.apply (Cursor.ofTokens .strict ts)).2.depth < nestingLimit := by
    decide
  obtain ⟨i, t, ht, hbefore, hposition, hfound, hsettled, hbegins⟩ := parse_error_place h rfl
  exact ⟨h, rfl, i, t, ht, hbefore, hposition, hfound, hsettled, hbegins hroom⟩

end Offside
