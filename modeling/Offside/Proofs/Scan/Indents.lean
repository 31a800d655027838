import Offside.Proofs.BlankLines

/-!
# Where indents stand

An indent stands at the first of the blanks in front of its line, and behind it comes the first
written token of the line. No written token stands at a blank, so no indent shares its position
with one.
-/

namespace Offside

namespace Kind

/-- Right behind every indent stands a written token. -/
def InkBehindIndents (ks : List Kind) : Prop :=
  ∀ us vs, ks = us ++ .indent :: vs → ∃ k ws, vs = k :: ws ∧ k.IsInk

section

variable {ks us vs : List Kind}

theorem InkBehindIndents.of_notMem (h : .indent ∉ ks) : InkBehindIndents ks := by
  rintro us vs rfl
  exact absurd (by simp) h

theorem InkBehindIndents.append (hus : InkBehindIndents us) (hvs : InkBehindIndents vs) :
    InkBehindIndents (us ++ vs) := by
  intro before after h
  rcases List.append_eq_append_iff.mp h with ⟨ws, rfl, hws⟩ | ⟨ws, rfl, hws⟩
  · exact hvs ws after hws
  · cases ws with
    | nil => exact hvs [] after hws.symm
    | cons w ws =>
        obtain ⟨rfl, rfl⟩ := List.cons.inj hws
        obtain ⟨k, xs, rfl, hk⟩ := hus before ws rfl
        exact ⟨k, xs ++ vs, rfl, hk⟩

theorem InkBehindIndents.of_mem_line (h : ks ∈ line) : InkBehindIndents ks := by
  obtain ⟨us, vs, hus, hne, hvs, rfl⟩ := mem_line_iff.mp h
  have hink : InkBehindIndents vs := .of_notMem fun hmem ↦ hvs _ hmem
  rcases hus with ⟨k, rfl, rfl⟩ | hus
  · obtain ⟨k, vs, rfl⟩ := List.exists_cons_of_ne_nil hne
    intro before after heq
    cases before with
    | nil =>
        obtain ⟨-, rfl⟩ := List.cons.inj heq
        exact ⟨k, vs, rfl, hvs k List.mem_cons_self⟩
    | cons b before => exact hink before after (List.cons.inj heq).2
  · exact .append (.of_notMem fun hmem ↦ nomatch mem_letter_kstar.mp hus _ hmem) hink

theorem InkBehindIndents.of_mem_lines (h : ks ∈ lines) : InkBehindIndents ks := by
  refine lines_induction (.of_notMem List.not_mem_nil) (fun us vs hus hvs ↦ ?_) h
  have hbreak : InkBehindIndents [.newline] := .of_notMem (by decide)
  exact (InkBehindIndents.of_mem_line hus).append (hbreak.append hvs)

theorem InkBehindIndents.of_mem_stream (h : ks ∈ stream) : InkBehindIndents ks := by
  obtain ⟨us, vs, ws, hus, hvs, hws, rfl⟩ := mem_stream_iff.mp h
  have hlast : InkBehindIndents vs := by
    rcases hvs with rfl | hvs
    · exact .of_notMem List.not_mem_nil
    · exact .of_mem_line hvs
  have hclose : InkBehindIndents ws := .of_notMem fun hmem ↦ nomatch hws _ hmem
  have heof : InkBehindIndents [.eof] := .of_notMem (by decide)
  exact (((InkBehindIndents.of_mem_lines hus).append hlast).append hclose).append heof

end

end Kind

/-- Behind an indent the source goes on with a written token. -/
theorem exists_ink_behind_indent {mode : Mode} {source : String} {ts us rest : List Token}
    {t : Token} (h : scan mode source = .ok ts) (hsplit : content ts = us ++ t :: rest)
    (ht : t.kind = .indent) : ∃ u vs, rest = u :: vs ∧ u.kind.IsInk := by
  have hink := Kind.InkBehindIndents.of_mem_stream (scan_lines h).1
  have hseal : ts = content ts ++ ts.dropWhile (·.kind ≠ .eof) :=
    List.takeWhile_append_dropWhile.symm
  have hkinds : ts.map Token.kind = us.map Token.kind ++
      .indent :: (rest.map Token.kind ++ (ts.dropWhile (·.kind ≠ .eof)).map Token.kind) := by
    conv_lhs => rw [hseal, hsplit]
    simp [ht]
  obtain ⟨k, ws, hks, hk⟩ := hink _ _ hkinds
  cases rest with
  | nil =>
      have hstop := List.head?_dropWhile_not (·.kind ≠ .eof) ts
      generalize ts.dropWhile (·.kind ≠ .eof) = tail at hks hstop
      cases tail with
      | nil => cases hks
      | cons u tail =>
          obtain rfl := (List.cons.inj hks).1
          exact absurd (by simpa using hstop) hk.ne_eof
  | cons u vs =>
      obtain rfl := (List.cons.inj hks).1
      exact ⟨u, vs, rfl, hk⟩

namespace Position

variable {before more : List Char}

theorem onLine_append (h : '\n' ∉ more) (before : List Char) :
    onLine (before ++ more) = onLine before + more.length := by
  induction more using List.reverseRecOn with
  | nil => rw [List.append_nil, List.length_nil, Nat.add_zero]
  | append_singleton more c ih =>
      obtain ⟨hmore, hc⟩ : '\n' ∉ more ∧ '\n' ≠ c := by simpa using h
      have hone (text : List Char) : onLine (text ++ [c]) = onLine text + 1 := by
        simp [onLine, hc.symm]
      rw [← List.append_assoc, hone, ih hmore, List.length_append, List.length_singleton,
        Nat.add_assoc]

/-- A text has only one beginning behind which a position is. -/
theorem behind_append_inj (hlength : (before ++ more).length + 1 < 2 ^ 32)
    (h : behind (before ++ more) = behind before) : more = [] := by
  have hshort : before.length + 1 < 2 ^ 32 := by
    rw [List.length_append] at hlength
    omega
  obtain ⟨hline, hcolumn⟩ := toNat_behind hlength
  obtain ⟨hline', hcolumn'⟩ := toNat_behind hshort
  rw [h, hline', breaks, breaks, List.count_append] at hline
  have hbreak : '\n' ∉ more := List.count_eq_zero.mp (by omega)
  rw [h, hcolumn', onLine_append hbreak] at hcolumn
  exact List.eq_nil_of_length_eq_zero (by omega)

theorem behind_inj {before' after after' : List Char} (hsplit : before ++ after = before' ++ after')
    (hlength : before.length + 1 < 2 ^ 32) (hlength' : before'.length + 1 < 2 ^ 32)
    (h : behind before = behind before') : before = before' := by
  rcases List.append_eq_append_iff.mp hsplit with ⟨more, rfl, -⟩ | ⟨more, rfl, -⟩
  · rw [behind_append_inj hlength' h.symm, List.append_nil]
  · rw [behind_append_inj hlength h, List.append_nil]

end Position

/-- The token stands at this character. -/
structure Token.StandsAt (t : Token) (c : Char) : Prop where
  indent : t.kind = .indent → Piece.isBlank c
  ink : t.kind.IsInk → ¬ Piece.isBlank c

namespace Scan

variable {mode : Mode} {s t : Scan} {xs : List Token} {before : List Char}

/-- A line without blanks in front opens no level. -/
theorem indent_notMem_settle (l : Levels) : .indent ∉ (l.settle (indentWidth [])).1 := by
  intro hmem
  rw [Levels.settle_of_le (show indentWidth [] ≤ l.innermost from Nat.zero_le _)] at hmem
  obtain ⟨-, -, hkind⟩ := List.mem_map.mp hmem
  cases hkind

theorem Step.standsAt (h : Step mode s xs t) :
    ∃ c cs, s.reader.rest = c :: cs ∧ ∀ x ∈ xs, x.StandsAt c := by
  obtain ⟨c, cs, hrest⟩ := List.exists_cons_of_ne_nil h.rest_ne_nil
  refine ⟨c, cs, hrest, fun x hx ↦ ?_⟩
  cases h with
  | drop _ _ | dropLast _ _ => exact absurd hx List.not_mem_nil
  | @settle r l blanks rest d hrest' hblanks _ _ =>
      obtain ⟨k, hk, rfl⟩ := List.mem_map.mp hx
      refine ⟨fun hindent ↦ ?_, fun hink ↦ ?_⟩
      · cases blanks with
        | nil => exact absurd (show Kind.indent ∈ _ from hindent ▸ hk) (indent_notMem_settle l)
        | cons b blanks =>
            obtain ⟨rfl, -⟩ := List.cons.inj (hrest.symm.trans hrest')
            exact hblanks c List.mem_cons_self
      · rcases kind_of_mem_settle hk with rfl | rfl <;> exact hink.elim
  | @piece r l d ds p token hrest' hpiece htoken =>
      obtain ⟨rfl, rfl⟩ := List.cons.inj (hrest.symm.trans hrest')
      obtain rfl := Option.mem_toList.mp hx
      refine ⟨fun hindent ↦ ?_, fun _ hblank ↦ ?_⟩
      · rcases Piece.token?_cases htoken with ⟨-, hx⟩ | ⟨-, y, hx, hy⟩ | ⟨-, y, hx, hy⟩
        · cases hx
        · cases hx
          cases hy.symm.trans hindent
        · cases hx
          exact absurd hindent hy.ne_indent
      · rw [Piece.at?, if_pos hblank] at hpiece
        cases hpiece
        cases htoken

theorem kind_of_mem_finish {s : Scan} {x : Token} (h : x ∈ s.finish) :
    x.kind = .dedent ∨ x.kind = .eof := by
  obtain ⟨k, hk, rfl⟩ := List.mem_map.mp h
  exact (List.mem_append.mp hk).imp mem_close List.mem_singleton.mp

end Scan

/-- Indents and written tokens stand at characters of their source. -/
theorem scan_standsAt {mode : Mode} {source : String} {ts : List Token} {t : Token}
    (h : scan mode source = .ok ts) (ht : t ∈ ts) (hkind : t.kind = .indent ∨ t.kind.IsInk) :
    ∃ front c cs, source.toList = front ++ c :: cs ∧ t.position = .behind front ∧
      t.StandsAt c := by
  obtain ⟨xs, s, hreach, -, rfl⟩ := scan_eq_ok_iff.mp h
  have hmargin := Scan.atMargin_start source
  have hstart : (Scan.start source).reader.position = .behind [] := rfl
  rcases List.mem_append.mp ht with ht | ht
  · exact hreach.exists_place (fun _ _ _ ↦ Scan.Step.standsAt) hmargin hstart t ht
  · rcases Scan.kind_of_mem_finish ht with hk | hk <;> rw [hk] at hkind
    · exact (hkind.resolve_left nofun).elim
    · exact (hkind.resolve_left nofun).elim

/-- No written token has the position of an indent. -/
theorem position_ne_of_isInk {mode : Mode} {source : String} {ts : List Token} {t u : Token}
    (hlength : source.toList.length < 2 ^ 32) (h : scan mode source = .ok ts) (ht : t ∈ ts)
    (hu : u ∈ ts) (hindent : t.kind = .indent) (hink : u.kind.IsInk) :
    t.position ≠ u.position := by
  intro hposition
  obtain ⟨front, c, cs, hsource, htposition, htstands⟩ := scan_standsAt h ht (.inl hindent)
  obtain ⟨front', d, ds, hsource', huposition, hustands⟩ := scan_standsAt h hu (.inr hink)
  have hshort {front : List Char} {c : Char} {cs : List Char}
      (hsplit : source.toList = front ++ c :: cs) : front.length + 1 < 2 ^ 32 := by
    rw [hsplit, List.length_append, List.length_cons] at hlength
    omega
  have hfront : front = front' := Position.behind_inj (hsource.symm.trans hsource')
    (hshort hsource) (hshort hsource') (by rw [← htposition, ← huposition, hposition])
  rw [hfront] at hsource
  obtain ⟨rfl, -⟩ := List.cons.inj (List.append_cancel_left (hsource.symm.trans hsource'))
  exact hustands.ink hink (htstands.indent hindent)

end Offside
