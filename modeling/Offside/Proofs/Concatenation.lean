import Offside.Proofs.Scan.Join

/-!
# Programs one behind another

Two sources of which the first is strictly accepted and ends with a line break are together a
source of both programs: its statements are those of the first and then those of the second, with
the positions counted on.
-/

namespace Offside

variable {mode : Mode} {ts us : List Token}

theorem Sealed.of_cons {t : Token} (h : Sealed (t :: ts)) (hts : ts ≠ []) : Sealed ts := by
  intro u hu
  cases ts with
  | nil => exact absurd rfl hts
  | cons v vs => exact h u (by rwa [List.getLast?_cons_cons])

/-- Behind a token that does not end a line there is another. -/
theorem Sealed.ne_nil_of_cons {t : Token} (h : Sealed (t :: ts)) (hnewline : t.kind ≠ .newline)
    (hdedent : t.kind ≠ .dedent) : ts ≠ [] := by
  rintro rfl
  rcases h t rfl with ht | ht
  · exact hnewline ht
  · exact hdedent ht

theorem Sealed.of_suffix (h : Sealed ts) (hsuffix : us <:+ ts) : Sealed us := by
  intro t ht
  obtain ⟨ws, rfl⟩ := hsuffix
  exact h t (by rw [List.getLast?_append, ht]; rfl)

/-- What is behind `ts` is put behind it, and `ts` does not break off within a line. -/
def FollowedBy (us ts ts' : List Token) : Prop :=
  ts' = ts ++ us ∧ Sealed ts

/-- The same, where there still is something in front. -/
def FollowedByInside (us ts ts' : List Token) : Prop :=
  FollowedBy us ts ts' ∧ ts ≠ []

theorem FollowedBy.of_cons {t : Token} {vs ts' : List Token} (h : FollowedBy us (t :: vs) ts') :
    ∃ vs', ts' = t :: vs' ∧ FollowedBy us vs vs' := by
  obtain ⟨rfl, hsealed⟩ := h
  exact ⟨vs ++ us, rfl, rfl, hsealed.of_suffix (List.suffix_cons t vs)⟩

theorem FollowedBy.inside {t : Token} {vs ts' : List Token} (h : FollowedBy us (t :: vs) ts')
    (hnewline : t.kind ≠ .newline) (hdedent : t.kind ≠ .dedent) :
    ∃ vs', ts' = t :: vs' ∧ FollowedByInside us vs vs' := by
  obtain ⟨vs', rfl, hvs⟩ := h.of_cons
  exact ⟨vs', rfl, hvs, h.2.ne_nil_of_cons hnewline hdedent⟩

theorem FollowedBy.breaks {vs ts' : List Token} (hgap : Breaks ts vs) (h : FollowedBy us ts ts') :
    ∃ vs', Breaks ts' vs' ∧ FollowedBy us vs vs' := by
  induction hgap generalizing ts' with
  | refl _ => exact ⟨ts', .refl ts', h⟩
  | cons hkind _ ih =>
      obtain ⟨ws', rfl, hws⟩ := h.of_cons
      obtain ⟨vs', hgap, hvs⟩ := ih hws
      exact ⟨vs', .cons hkind hgap, hvs⟩

/-- The end of the tokens and more tokens in its place are the same to every construct that is
closed in front of them. -/
theorem Layout.exact_translates_append (mode : Mode) (us : List Token) :
    (exact .strict).Translates (exact mode) (FollowedByInside us) (FollowedBy us) where
  inner := by
    rintro k t ts ts' rfl ht ⟨h, -⟩
    exact h.inside ht.isInk.ne_newline ht.isInk.ne_dedent
  returning := by
    rintro s n t ts us ts' ht - - ⟨h, -⟩
    exact h.inside (by simp [ht]) (by simp [ht])
  inside := by
    intro t ts ts' _ h
    exact ⟨h, List.cons_ne_nil t ts⟩
  gap _ _ _ hgap h := FollowedBy.breaks hgap (h.elim (·.1) id)
  ends := by
    rintro s n ts us' ts' vs' - hends - - ⟨⟨rfl, -⟩, hne⟩
    obtain ⟨t, vs, rfl⟩ := List.exists_cons_of_ne_nil hne
    exact hends
  brace := by
    intro t ts vs ts' _ hgap hts
    obtain ⟨vs', rfl, hvs⟩ := hts.of_cons
    obtain ⟨ws', hgap, hws⟩ := FollowedBy.breaks hgap hvs
    exact ⟨vs', ws', rfl, hgap, hws⟩
  indented := by
    intro t ts ts' hopen hts
    obtain ⟨us', rfl, hus⟩ := hts.of_cons
    refine ⟨us', hus, ?_⟩
    intro ss n vs ws ws' _ hclose h hvs
    cases hclose with
    | dedent hclose =>
        obtain ⟨xs', rfl, hxs⟩ := hvs.of_cons
        exact ⟨xs', .indented hopen h hclose, .inr hxs⟩
    | missing hmode _ => simp [exact] at hmode

theorem Part.Reads.append_stmts {L : Layout} {ss ss' : List Stmt} {n m : Nat} {vs : List Token}
    (h : (stmts ss).Reads L n ts us) (h' : (stmts ss').Reads L m us vs) :
    (stmts (ss ++ ss')).Reads L (max n m) ts vs := by
  induction ss generalizing n ts with
  | nil =>
      cases h
      rwa [Nat.max_eq_right (Nat.zero_le m)]
  | cons s ss ih =>
      cases h with
      | cons hbefore h hafter hothers =>
          rw [Nat.max_assoc]
          exact .cons hbefore h hafter (ih hothers)

theorem Part.Reads.firstKind_ne_indent {ss : List Stmt} {n : Nat}
    (h : (stmts ss).Reads (.exact mode) n ts []) (hts : firstKind ts ≠ .newline) :
    firstKind ts ≠ .indent := by
  cases h with
  | nil => exact nofun
  | cons hbefore h _ _ =>
      obtain rfl := Breaks.eq_of_ne hbefore hts
      intro hindent
      have hstart := h.stmt_starts
      simp [hindent, Kind.StartsStmt, Kind.statementForm?, Kind.StartsExpr, Kind.atomForm?,
        Kind.unaryOp?] at hstart

/-- What two sources are parsed as is parsed from both together, the first being strictly accepted
and empty or at the end of a line. -/
theorem run_append_eq_ok {a b : String} {p q : Program} (hend : a = "" ∨ ∃ c, a = c ++ "\n")
    (ha : run .strict a = .ok p) (hb : run mode b = .ok q) :
    run mode (a ++ b) = .ok ⟨p.body ++
      q.body.map (Stmt.mapPositions (Position.down (Position.breaks a.toList))), .start⟩ := by
  obtain ⟨ts, hscan, hparse⟩ := exists_scan_of_run ha
  obtain ⟨us, hscan', hparse'⟩ := exists_scan_of_run hb
  obtain ⟨n, hn, hp⟩ := Program.Reads.of_parse_eq_ok hparse
  obtain ⟨m, hm, -, us', hgap, hq⟩ := Program.Reads.of_parse_eq_ok hparse'
  have hnewline := firstKind_content_scan_ne_newline hscan'
  obtain rfl := Breaks.eq_of_ne hgap hnewline
  obtain ⟨vs, xs, ds, es, hjoined, hts, hvs, hclosing, hsealed⟩ :=
    scan_append hend hscan hscan' (hq.firstKind_ne_indent hnewline)
  have hp : p.Reads (.exact .strict) n (xs ++ es) := by
    rw [hts] at hp
    exact ((Program.reads_iff_of_upToBreak (.append xs (.closing hclosing))).mp hp).1
  obtain ⟨-, ws, hgap', hbody⟩ := hp
  obtain ⟨ws', hgap', hws⟩ := FollowedBy.breaks hgap' ⟨rfl, hsealed⟩
  obtain ⟨-, hleft, rfl, -⟩ := hbody.translate (Layout.exact_translates_append mode _) hws
  have hright := hq.moved (f := Position.down (Position.breaks a.toList))
  rw [run_eq_parse hjoined]
  refine parse_eq_ok_of_reads ⟨rfl, ws', ?_, hleft.append_stmts hright⟩ (Nat.max_le.mpr ⟨hn, hm⟩)
  rwa [hvs]

/-- The level of the class is still open where the second source starts. -/
theorem run_append_eq_ok_class :
    let a := "class A:\n  pass\n"
    let b := "pass\n"
    let p : Program := ⟨[.classDecl ⟨1, 1⟩ "A" ⟨⟨2, 1⟩, [.pass ⟨2, 3⟩]⟩], .start⟩
    let q : Program := ⟨[.pass ⟨1, 1⟩], .start⟩
    (a = "" ∨ ∃ c, a = c ++ "\n") ∧ run .strict a = .ok p ∧ run .lenient b = .ok q ∧
      run .lenient (a ++ b) = .ok ⟨p.body ++ [.pass ⟨3, 1⟩], .start⟩ := by
  intro a b p q
  have hend : a = "" ∨ ∃ c, a = c ++ "\n" := .inr ⟨"class A:\n  pass", by decide⟩
  have ha : run .strict a = .ok p := by
    let ts : List Token := [⟨.keyword .classKw, "class", none, ⟨1, 1⟩⟩,
      ⟨.identifier, "A", some (.text "A"), ⟨1, 7⟩⟩, ⟨.mark .colon, ":", none, ⟨1, 8⟩⟩,
      ⟨.newline, "\n", none, ⟨1, 9⟩⟩, .layout .indent ⟨2, 1⟩,
      ⟨.keyword .passKw, "pass", none, ⟨2, 3⟩⟩, ⟨.newline, "\n", none, ⟨2, 7⟩⟩,
      .layout .dedent ⟨3, 1⟩, .layout .eof ⟨3, 1⟩]
    have hscan : scan .strict a = .ok ts := by decide +kernel
    have hparse : parse .strict ts = .ok p := by rfl
    rw [run_eq_parse hscan, hparse]
  have hb : run .lenient b = .ok q := by
    let us : List Token := [⟨.keyword .passKw, "pass", none, ⟨1, 1⟩⟩,
      ⟨.newline, "\n", none, ⟨1, 5⟩⟩, .layout .eof ⟨2, 1⟩]
    have hscan : scan .lenient b = .ok us := by decide +kernel
    have hparse : parse .lenient us = .ok q := by rfl
    rw [run_eq_parse hscan, hparse]
  have hbreaks : Position.breaks a.toList = 2 := by decide
  have hjoined := run_append_eq_ok hend ha hb
  rw [hbreaks] at hjoined
  exact ⟨hend, ha, hb, hjoined⟩

end Offside
