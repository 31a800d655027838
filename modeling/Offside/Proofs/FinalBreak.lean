import Mathlib.Data.List.Forall2
import Offside.Proofs.BareReturn
import Offside.Proofs.Scan.Balance
import Offside.Proofs.Scan.Extend

/-!
# The last line break of a source

A line break at the end of a source ends its last line and nothing more, so the same program is
read with it as without it. There is one exception: without the line break a `return` that stands
last in an indented block is followed by the dedent of that block, and is taken for the start of
an expression.
-/

namespace Offside

/-- Dedents on both sides. -/
abbrev Closing : List Token → List Token → Prop :=
  List.Forall₂ fun t u ↦ t.kind = .dedent ∧ u.kind = .dedent

/-- There is a line break in front of the dedents on the right. -/
def BreakFirst (ts us : List Token) : Prop :=
  ∃ u vs, us = u :: vs ∧ u.kind = .newline ∧ Closing ts vs

/-- The same tokens up to the dedents at the end, where there may be a line break in front of
those on the right if a statement stands there. -/
inductive UpToBreak : List Token → List Token → Prop
  | closing {ts us : List Token} (h : Closing ts us) : UpToBreak ts us
  | last {t : Token} {ts us : List Token} (hink : t.kind.IsInk) (h : BreakFirst ts us) :
      UpToBreak (t :: ts) (t :: us)
  | cons {t : Token} {ts us : List Token} (h : UpToBreak ts us) : UpToBreak (t :: ts) (t :: us)

theorem Closing.firstKind_ne_newline {ts us : List Token} (h : Closing ts us) :
    firstKind ts ≠ .newline ∧ firstKind us ≠ .newline := by
  cases h with
  | nil => exact ⟨nofun, nofun⟩
  | cons h _ => simp [h.1, h.2]

theorem BreakFirst.left_of_cons {t : Token} {ts us : List Token} (h : BreakFirst (t :: ts) us) :
    t.kind = .dedent := by
  obtain ⟨_, _, _, _, h⟩ := h
  cases h with
  | cons h _ => exact h.1

namespace UpToBreak

variable {t : Token} {ts us : List Token}

theorem firstKind_eq (h : UpToBreak ts us) : firstKind ts = firstKind us := by
  cases h with
  | closing h =>
      cases h with
      | nil => rfl
      | cons h _ => exact h.1.trans h.2.symm
  | last _ _ => rfl
  | cons _ => rfl

theorem of_cons (h : UpToBreak (t :: ts) us) (ht : t.kind ≠ .dedent) :
    ∃ vs, us = t :: vs ∧ (UpToBreak ts vs ∨ t.kind.IsInk ∧ BreakFirst ts vs) := by
  cases h with
  | closing h =>
      cases h with
      | cons h _ => exact absurd h.1 ht
  | last hink h => exact ⟨_, rfl, .inr ⟨hink, h⟩⟩
  | cons h => exact ⟨_, rfl, .inl h⟩

theorem of_cons_right (h : UpToBreak us (t :: ts)) (ht : t.kind ≠ .dedent) :
    ∃ vs, us = t :: vs ∧ (UpToBreak vs ts ∨ t.kind.IsInk ∧ BreakFirst vs ts) := by
  cases h with
  | closing h =>
      cases h with
      | cons h _ => exact absurd h.2 ht
  | last hink h => exact ⟨_, rfl, .inr ⟨hink, h⟩⟩
  | cons h => exact ⟨_, rfl, .inl h⟩

theorem of_dedent (h : UpToBreak (t :: ts) us) (ht : t.kind = .dedent) :
    ∃ u vs, us = u :: vs ∧ u.kind = .dedent ∧ UpToBreak ts vs := by
  cases h with
  | closing h =>
      cases h with
      | cons h hrest => exact ⟨_, _, rfl, h.2, .closing hrest⟩
  | last hink _ => exact absurd ht hink.ne_dedent
  | cons h => exact ⟨t, _, rfl, ht, h⟩

theorem of_dedent_right (h : UpToBreak us (t :: ts)) (ht : t.kind = .dedent) :
    ∃ u vs, us = u :: vs ∧ u.kind = .dedent ∧ UpToBreak vs ts := by
  cases h with
  | closing h =>
      cases h with
      | cons h hrest => exact ⟨_, _, rfl, h.1, .closing hrest⟩
  | last hink _ => exact absurd ht hink.ne_dedent
  | cons h => exact ⟨t, _, rfl, ht, h⟩

theorem append (ws : List Token) (h : UpToBreak ts us) : UpToBreak (ws ++ ts) (ws ++ us) := by
  induction ws with
  | nil => exact h
  | cons _ _ ih => exact .cons ih

end UpToBreak

/-- Inside a statement the line break may come next. -/
def UpToBreakHere (ts us : List Token) : Prop :=
  UpToBreak ts us ∨ BreakFirst ts us

namespace UpToBreakHere

variable {t : Token} {ts us vs : List Token}

theorem of_ink (h : UpToBreakHere (t :: ts) us) (ht : t.kind.IsInk) :
    ∃ vs, us = t :: vs ∧ UpToBreakHere ts vs := by
  rcases h with h | h
  · obtain ⟨vs, rfl, h | ⟨-, h⟩⟩ := h.of_cons ht.ne_dedent
    · exact ⟨vs, rfl, .inl h⟩
    · exact ⟨vs, rfl, .inr h⟩
  · exact absurd h.left_of_cons ht.ne_dedent

theorem of_ink_right (h : UpToBreakHere us (t :: ts)) (ht : t.kind.IsInk) :
    ∃ vs, us = t :: vs ∧ UpToBreakHere vs ts := by
  rcases h with h | ⟨u, vs, ⟨⟩, hbreak, -⟩
  · obtain ⟨vs, rfl, h | ⟨-, h⟩⟩ := h.of_cons_right ht.ne_dedent
    · exact ⟨vs, rfl, .inl h⟩
    · exact ⟨vs, rfl, .inr h⟩
  · exact absurd hbreak ht.ne_newline

theorem breaks (h : UpToBreakHere ts us) (hgap : Breaks ts vs) :
    ∃ ws, Breaks us ws ∧ UpToBreak vs ws := by
  rcases h with h | ⟨u, ws, rfl, hbreak, h⟩
  · induction hgap generalizing us with
    | refl _ => exact ⟨us, .refl us, h⟩
    | cons hkind _ ih =>
        obtain ⟨ws, rfl, h | ⟨hink, -⟩⟩ := h.of_cons (by simp [hkind])
        · obtain ⟨xs, hgap, h⟩ := ih h
          exact ⟨xs, .cons hkind hgap, h⟩
        · exact absurd hkind hink.ne_newline
  · obtain rfl := hgap.eq_of_ne h.firstKind_ne_newline.1
    exact ⟨ws, .cons hbreak (.refl ws), .closing h⟩

theorem breaks_right (h : UpToBreakHere us ts) (hgap : Breaks ts vs) :
    ∃ ws, Breaks us ws ∧ UpToBreakHere ws vs := by
  induction hgap generalizing us with
  | refl _ => exact ⟨us, .refl us, h⟩
  | cons hkind hgap ih =>
      rcases h with h | ⟨u, ws, ⟨⟩, hbreak, h⟩
      · obtain ⟨ws, rfl, h | ⟨hink, -⟩⟩ := h.of_cons_right (by simp [hkind])
        · obtain ⟨xs, hgap, h⟩ := ih (.inl h)
          exact ⟨xs, .cons hkind hgap, h⟩
        · exact absurd hkind hink.ne_newline
      · obtain rfl := hgap.eq_of_ne h.firstKind_ne_newline.2
        exact ⟨us, .refl us, .inl (.closing h)⟩

end UpToBreakHere

namespace Layout

theorem exact_carries_break (mode : Mode) :
    (exact mode).Carries (exact mode) UpToBreakHere UpToBreak where
  mode h := h
  inner := by
    rintro k t ts us rfl ht h
    exact h.of_ink ht.isInk
  returning := by
    intro s n t ts us ts' ht _ _ h
    exact h.of_ink (by simp [ht, Kind.IsInk])
  inside _ _ := .inl
  brace := by
    intro t ts us ht h
    exact h.of_ink (by rcases ht with ht | ht <;> simp [ht, Kind.IsInk])
  indent := by
    intro t ts us ht h
    obtain ⟨vs, rfl, hrest | ⟨hink, -⟩⟩ := h.of_cons (by simp [ht])
    · exact ⟨vs, rfl, hrest⟩
    · simp [ht, Kind.IsInk] at hink
  dedent _ _ _ ht h := h.of_dedent ht
  eof _ _ hend h := h.firstKind_eq.symm.trans hend
  gap _ _ _ hgap h := h.breaks hgap
  ends := by
    intro s n ts us ts' us' _ hends _ _ h
    show s.EndsBefore (firstKind us')
    rcases h with h | ⟨u, vs, rfl, hbreak, -⟩
    · rw [← h.firstKind_eq]
      exact hends
    · rw [firstKind_cons, hbreak]
      exact s.endsBefore_of_not_isInk id (.inr (.inl rfl))

theorem exact_carries_unbroken (mode : Mode) : (exact mode).Carries (exact mode)
    (fun us ts ↦ UpToBreakHere ts us ∧ ¬ ReturnBefore .dedent ts)
    (fun us ts ↦ UpToBreakHere ts us ∧ ¬ ReturnBefore .dedent ts) where
  mode h := h
  inner := by
    rintro k t us ts rfl ht ⟨h, hbare⟩
    obtain ⟨vs, rfl, hrest⟩ := h.of_ink_right ht.isInk
    exact ⟨vs, rfl, hrest, fun hlater ↦ hbare (.later hlater)⟩
  returning := by
    rintro s n t us vs ts ht - - ⟨h, hbare⟩
    obtain ⟨ws, rfl, hrest⟩ := h.of_ink_right (by simp [ht, Kind.IsInk])
    exact ⟨ws, rfl, hrest, fun hlater ↦ hbare (.later hlater)⟩
  inside _ _ h := h
  brace := by
    rintro t us ts ht ⟨h, hbare⟩
    obtain ⟨vs, rfl, hrest⟩ := h.of_ink_right (by rcases ht with ht | ht <;> simp [ht, Kind.IsInk])
    exact ⟨vs, rfl, hrest, fun hlater ↦ hbare (.later hlater)⟩
  indent := by
    rintro t us ts ht ⟨h | ⟨u, vs, ⟨⟩, hbreak, -⟩, hbare⟩
    · obtain ⟨vs, rfl, hrest | ⟨hink, -⟩⟩ := h.of_cons_right (by simp [ht])
      · exact ⟨vs, rfl, .inl hrest, fun hlater ↦ hbare (.later hlater)⟩
      · simp [ht, Kind.IsInk] at hink
    · simp [ht] at hbreak
  dedent := by
    rintro t us ts ht ⟨h | ⟨u, vs, ⟨⟩, hbreak, -⟩, hbare⟩
    · obtain ⟨u, vs, rfl, hu, hrest⟩ := h.of_dedent_right ht
      exact ⟨u, vs, rfl, hu, .inl hrest, fun hlater ↦ hbare (.later hlater)⟩
    · simp [ht] at hbreak
  eof := by
    rintro us ts hend ⟨h | ⟨u, vs, rfl, hbreak, -⟩, -⟩
    · exact h.firstKind_eq.trans hend
    · simp [hbreak] at hend
  gap := by
    rintro us vs ts hgap ⟨h, hbare⟩
    obtain ⟨ws, hgap, hrest⟩ := h.breaks_right hgap
    exact ⟨ws, hgap, hrest, fun hlater ↦ hbare (hlater.of_suffix hgap.suffix)⟩
  ends := by
    rintro s n ts us ts' us' - hends h' ⟨-, hbare⟩ ⟨h, -⟩
    show s.EndsBefore (firstKind us')
    rcases h with h | ⟨u, vs, rfl, hbreak, hclosing⟩
    · rw [h.firstKind_eq]
      exact hends
    · cases hclosing with
      | nil => exact s.endsBefore_of_not_isInk id (.inr (.inr rfl))
      | cons hdedent _ =>
          rw [firstKind_cons, hdedent.1]
          refine s.endsBefore_of_not_isInk id (.inl ?_)
          rintro p rfl
          cases h' with
          | returning ht => exact hbare (.here ht hdedent.1)

end Layout

variable {p : Program} {mode : Mode} {n : Nat} {ts us : List Token}

/-- The grammar does not see the line break, unless it stands behind a `return`. -/
theorem Program.reads_iff_of_upToBreak (h : UpToBreak ts us) :
    p.Reads (.exact mode) n ts ↔ p.Reads (.exact mode) n us ∧ ¬ ReturnBefore .dedent ts := by
  constructor
  · intro hread
    refine ⟨hread.carry (Layout.exact_carries_break mode) ?_ (.inl h),
      hread.not_returnBefore (.inl rfl)⟩
    rintro us' (⟨⟨⟩⟩)
    rfl
  · rintro ⟨hread, hbare⟩
    refine hread.carry (Layout.exact_carries_unbroken mode) ?_ ⟨.inl h, hbare⟩
    rintro ts' ⟨h | ⟨u, vs, ⟨⟩, -, -⟩, -⟩
    cases h with
    | closing h => exact List.forall₂_nil_right_iff.mp h

theorem Scan.closing_dedents {s t : Scan} (h : t.levels = s.levels) :
    Closing s.dedents t.dedents := by
  rw [dedents, dedents, h, Levels.close, List.map_map, List.map_map, Closing,
    List.forall₂_map_left_iff, List.forall₂_map_right_iff]
  exact List.forall₂_same.mpr fun _ _ ↦ ⟨rfl, rfl⟩

theorem firstKind_append_eof (ts : List Token) {t : Token} (ht : t.kind = .eof) :
    firstKind (ts ++ [t]) = firstKind ts := by
  cases ts with
  | nil => exact ht
  | cons _ _ => rfl

theorem ReturnBefore.append_eof_iff {k : Kind} (ts : List Token) {t : Token} (ht : t.kind = .eof) :
    ReturnBefore k (ts ++ [t]) ↔ ReturnBefore k ts := by
  induction ts with
  | nil =>
      constructor
      · intro h
        cases h with
        | here hreturn _ => simp [ht] at hreturn
        | later h => exact h
      · nofun
  | cons u us ih =>
      constructor
      · intro h
        cases h with
        | here hreturn hnext => exact .here hreturn (firstKind_append_eof us ht ▸ hnext)
        | later h => exact .later (ih.mp h)
      · intro h
        cases h with
        | here hreturn hnext =>
            exact .here hreturn ((firstKind_append_eof us ht).trans hnext)
        | later h => exact .later (ih.mpr h)

theorem upToBreak_of_scans {xs ys : List Token} {s t : Scan} (h : t.levels = s.levels)
    (hys : ys = xs ∨ ∃ ws w x, xs = ws ++ [w] ∧ w.kind.IsInk ∧ x.kind = .newline ∧
      ys = xs ++ [x]) : UpToBreak (xs ++ s.dedents) (ys ++ t.dedents) := by
  have hclosing := Scan.closing_dedents h
  rcases hys with rfl | ⟨ws, w, x, rfl, hw, hx, rfl⟩
  · exact .append ys (.closing hclosing)
  · rw [List.append_assoc, List.append_assoc, List.append_assoc]
    exact .append ws (.last hw ⟨x, t.dedents, rfl, hx, hclosing⟩)

/-- With a line break at its end a source is read as without it, exactly if no `return` stands
in front of a dedent. -/
theorem run_append_newline_iff {source : String} (hscan : scan mode source = .ok ts)
    (hclosed : ∀ t ∈ ts, t.IsClosed) :
    run mode source = .ok p ↔ run mode (source ++ "\n") = .ok p ∧ ¬ ReturnBefore .dedent ts := by
  obtain ⟨xs, ys, t, u, rfl, hscan', hxs, hys, hlevels, hend⟩ :=
    Scan.scan_append_newline hscan hclosed
  have hbare : ReturnBefore .dedent (xs ++ t.finish) ↔ ReturnBefore .dedent (xs ++ t.dedents) := by
    rw [Scan.finish_eq, ← List.append_assoc]
    exact ReturnBefore.append_eof_iff _ rfl
  have hreads (n : ℕ) : p.Reads (.exact mode) n (xs ++ t.dedents) ↔
      p.Reads (.exact mode) n (ys ++ u.dedents) ∧ ¬ ReturnBefore .dedent (xs ++ t.dedents) :=
    Program.reads_iff_of_upToBreak (upToBreak_of_scans hlevels hend)
  rw [run_eq_parse hscan, run_eq_parse hscan', parse_eq_ok_iff, parse_eq_ok_iff,
    Scan.content_append_finish hxs, Scan.content_append_finish hys, hbare]
  constructor
  · rintro ⟨n, hn, h⟩
    obtain ⟨h, hbare⟩ := (hreads n).mp h
    exact ⟨⟨n, hn, h⟩, hbare⟩
  · rintro ⟨⟨n, hn, h⟩, hbare⟩
    exact ⟨n, hn, (hreads n).mpr ⟨h, hbare⟩⟩

/-- The body of a class is a `return` at the end of the source. -/
theorem run_append_newline_return :
    let source := "class A:\n    return"
    let ts : List Token := [⟨.keyword .classKw, "class", none, ⟨1, 1⟩⟩,
      ⟨.identifier, "A", some (.text "A"), ⟨1, 7⟩⟩, ⟨.mark .colon, ":", none, ⟨1, 8⟩⟩,
      ⟨.newline, "\n", none, ⟨1, 9⟩⟩, .layout .indent ⟨2, 1⟩,
      ⟨.keyword .returnKw, "return", none, ⟨2, 5⟩⟩, .layout .dedent ⟨2, 11⟩,
      .layout .eof ⟨2, 11⟩]
    let p : Program := ⟨[.classDecl ⟨1, 1⟩ "A" ⟨⟨2, 1⟩, [.returning ⟨2, 5⟩ none]⟩], .start⟩
    scan .lenient source = .ok ts ∧ (∀ t ∈ ts, t.IsClosed) ∧
      run .lenient (source ++ "\n") = .ok p ∧ run .lenient source ≠ .ok p ∧
      (run .lenient source = .ok p ↔
        run .lenient (source ++ "\n") = .ok p ∧ ¬ ReturnBefore .dedent ts) := by
  intro source ts p
  have hscan : scan .lenient source = .ok ts := by decide +kernel
  have hclosed : ∀ t ∈ ts, t.IsClosed := by
    intro t ht hkind
    have hne : ∀ t ∈ ts, t.kind ≠ .string := by decide
    exact absurd hkind (hne t ht)
  have hbare : ReturnBefore .dedent ts :=
    .later (.later (.later (.later (.later (.here rfl rfl)))))
  have hrun : run .lenient (source ++ "\n") = .ok p := by
    let us : List Token := [⟨.keyword .classKw, "class", none, ⟨1, 1⟩⟩,
      ⟨.identifier, "A", some (.text "A"), ⟨1, 7⟩⟩, ⟨.mark .colon, ":", none, ⟨1, 8⟩⟩,
      ⟨.newline, "\n", none, ⟨1, 9⟩⟩, .layout .indent ⟨2, 1⟩,
      ⟨.keyword .returnKw, "return", none, ⟨2, 5⟩⟩, ⟨.newline, "\n", none, ⟨2, 11⟩⟩,
      .layout .dedent ⟨3, 1⟩, .layout .eof ⟨3, 1⟩]
    have hscan' : scan .lenient (source ++ "\n") = .ok us := by decide +kernel
    have hparse : parse .lenient us = .ok p := by rfl
    rw [run_eq_parse hscan', hparse]
  have hiff := run_append_newline_iff (p := p) hscan hclosed
  exact ⟨hscan, hclosed, hrun, fun h ↦ (hiff.mp h).2 hbare, hiff⟩

end Offside
