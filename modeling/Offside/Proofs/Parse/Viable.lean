import Mathlib.Data.List.TakeWhile
import Offside.Proofs.Parse.Outcome
import Offside.Proofs.Parse.CompleteStatement

/-!
# How parsers can be completed

The primitives of the parsers can be completed wherever they stop, and so can what is put together
from them: a choice by the next token, a level, a chain and the lists and optional parts.
-/

namespace Offside

/-- Anything may follow. -/
def Kind.Any (_ : Kind) : Prop := True

/-- No line break follows. -/
def Kind.NoBreak (k : Kind) : Prop :=
  k ≠ .newline

theorem Opens.any (F : Kind → Prop) (ks : List Kind) : Opens Kind.Any F ks := by
  cases ks with
  | nil => exact .nil fun _ _ ↦ trivial
  | cons k ks => exact .cons trivial

theorem skipBreaks_append {used : List Token} (h : ∀ t ∈ used, t.kind = .newline)
    {us : List Token} (hus : firstKind us ≠ .newline) : skipBreaks (used ++ us) = us := by
  rw [skipBreaks, List.dropWhile_append_of_pos (by simpa using h)]
  exact skipBreaks_of_firstKind_ne hus

theorem Cursor.HasRoom.depth_lt {c : Cursor} {r : Nat} (hc : c.HasRoom (r + 1)) :
    c.depth < c.limit := by
  have hdepth := hc.depth
  omega

theorem Cursor.HasRoom.room_eq {c : Cursor} {r : Nat} (hc : c.HasRoom r) : c.room = r := by
  rw [room, ← hc.depth]
  exact Nat.add_sub_cancel_left c.depth r

namespace Parse

variable {α β : Type} {c : Cursor} {r : Nat} {F G : Kind → Prop} {ts : List Token} {ks : List Kind}

/-! The primitives. -/

theorem pure_viable (a : α) : Viable r false [] F (pure a : Parse α) where
  steady _ hc _ := .of_nothing hc.stop fun _ _ _ _ ↦ rfl
  succeeds _ _ _ _ _ := ⟨List.not_mem_nil, a, rfl⟩
  busy := nofun

theorem Viable.map {p : Parse α} {deep : Bool} (h : Viable r deep ks F p) (g : α → β) :
    Viable r deep ks F (g <$> p) := by
  have hbind := h.bind (fun a ↦ pure_viable (g a)) (.nil fun _ hk ↦ hk)
  rwa [Bool.or_false, List.append_nil, ← map_eq_pure_bind] at hbind

protected theorem Viable.discard {p : Parse α} {deep : Bool} (h : Viable r deep ks F p) :
    Viable r deep ks F (discard p : Parse Unit) :=
  h.map _

protected theorem Steady.discard {p : Parse α} (h : Steady r F p) :
    Steady r F (discard p : Parse Unit) := by
  have hbind := h.bind (fun _ ↦ pure_viable ()) (.nil fun _ hk ↦ hk)
  rwa [← map_eq_pure_bind] at hbind

theorem position_viable : Viable r false [] F position where
  steady c hc ts := by
    refine .of_nothing (a := (c.facing ts).current.position) hc.stop fun c' vs _ hnext ↦ ?_
    rw [← hnext.current]
    rfl
  succeeds _ _ _ _ _ := ⟨List.not_mem_nil, _, rfl⟩
  busy := nofun

theorem advance_steady : Steady r Kind.Any advance := by
  intro c hc ts
  cases ts with
  | nil =>
      refine .of_nothing (a := c.stop) hc.stop fun c' vs _ hnext ↦ ?_
      obtain rfl := List.head?_eq_none_iff.mp hnext.head.symm
      rw [← hnext.stop rfl]
      rfl
  | cons t us => exact .of_token (a := t) fun _ _ ↦ rfl

theorem advance_viable {k : Kind} (hk : k ≠ .eof) : Viable r false [k] Kind.Any advance where
  steady := advance_steady
  succeeds _ _ _ _ _ := ⟨by simpa using hk.symm, _, rfl⟩
  busy := nofun

theorem skipNewlines_facing {used us : List Token} (h : ∀ t ∈ used, t.kind = .newline)
    (hus : firstKind us ≠ .newline) (c : Cursor) :
    skipNewlines (c.facing (used ++ us)) = .ok () (c.facing us) := by
  have hskip := skipBreaks_append h hus
  exact congrArg (EStateM.Result.ok () <| c.facing ·) hskip

theorem skipNewlines_steady : Steady r Kind.NoBreak skipNewlines := by
  intro c _ ts
  have hsplit : ts.takeWhile (·.kind = .newline) ++ skipBreaks ts = ts :=
    List.takeWhile_append_dropWhile
  have hused : ∀ t ∈ ts.takeWhile (·.kind = .newline), t.kind = .newline :=
    fun t ht ↦ by simpa using List.mem_takeWhile_imp ht
  have hrun : Outcome c Kind.NoBreak skipNewlines
      (ts.takeWhile (·.kind = .newline) ++ skipBreaks ts) (.ok () (c.facing (skipBreaks ts))) := by
    refine .ok (fun c' vs _ hnext ↦ skipNewlines_facing hused ?_ c') fun _ ↦
      ⟨[], fun us hus ↦ ⟨List.not_mem_nil, (), skipNewlines_facing hused hus c⟩⟩
    rw [hnext.firstKind_eq]
    exact firstKind_skipBreaks_ne ts
  rwa [hsplit] at hrun

/-- Line breaks are skipped, or none are there. -/
theorem skipNewlines_viable_of (hks : ∀ k ∈ ks, k = .newline) :
    Viable r false ks Kind.NoBreak skipNewlines where
  steady := skipNewlines_steady
  succeeds c _ _ us hus := by
    have hbreaks : ∀ t ∈ tokensOf ks, t.kind = .newline := by
      intro t ht
      obtain ⟨k, hk, rfl⟩ := List.mem_map.mp ht
      exact hks k hk
    have heof : .eof ∉ ks := fun hmem ↦ absurd (hks _ hmem) (by decide)
    exact ⟨heof, (), skipNewlines_facing hbreaks hus c⟩
  busy := nofun

theorem skipNewlines_viable : Viable r false [] Kind.NoBreak skipNewlines :=
  skipNewlines_viable_of nofun

/-- The token that is rejected is the next one. -/
theorem reject_steady (cause : Cause) (h : cause.found? = some (c.facing ts).current.describe) :
    SteadyAt c F (reject cause : Parse α) ts := by
  have hrun : Outcome c F (reject cause : Parse α) ([] ++ ts)
      (.error ⟨cause, (c.facing ts).current.position⟩ (c.facing ts)) := by
    refine .found (.refl c ts) ⟨h, rfl⟩ (fun c' vs _ hnext ↦ ?_) fun _ hne ↦ absurd rfl hne
    refine ⟨c'.facing vs, ?_⟩
    rw [List.nil_append, reject_eq, hnext.current]
  exact hrun

theorem expect_viable {k : Kind} (hk : k ≠ .eof) : Viable r false [k] Kind.Any (expect k) where
  steady c hc ts := by
    by_cases hfirst : firstKind ts = k
    · obtain ⟨t, us, rfl, ht⟩ := exists_cons_of_firstKind hfirst hk
      exact .of_token (expect_cons ht)
    · refine SteadyAt.of_eq (q := reject _) hc.stop (fun c' vs htwin hnext ↦ ?_)
        (reject_steady (.unexpectedToken k (c.facing ts).current.describe) rfl)
      have hkind : (c'.facing vs).current.kind ≠ k := by
        rwa [Cursor.kind_current_facing vs htwin.stop, hnext.firstKind_eq]
      rw [expect_eq, if_neg hkind, reject_eq, hnext.current]
  succeeds c _ _ us _ := ⟨by simpa using hk.symm, _, expect_cons rfl c us⟩
  busy := nofun

theorem identifier_viable : Viable r false [.identifier] Kind.Any identifier := by
  have hname := (expect_viable (r := r) (k := .identifier) (by decide)).map Token.lexeme
  rwa [map_eq_pure_bind] at hname

/-! Choices. -/

theorem kind_bind_steady {f : Kind → Parse β} (hf : ∀ k, Steady r F (f k)) :
    Steady r F (kind >>= f) := by
  intro c hc ts
  refine SteadyAt.of_eq hc.stop (fun c' vs htwin hnext ↦ ?_) (hf (firstKind ts) hc ts)
  rw [kind_bind htwin.stop, hnext.firstKind_eq]

/-- The choice for the tokens that a fresh run succeeds on. -/
theorem kind_bind_viable {f : Kind → Parse β} (hf : ∀ k, Steady r F (f k))
    (hfresh : ∀ us, F (firstKind us) → Fresh r false ks F (f (firstKind (tokensOf ks ++ us)))) :
    Viable r false ks F (kind >>= f) where
  steady := kind_bind_steady hf
  succeeds c hc hroom us hus := by
    rw [kind_bind hc.stop]
    exact (hfresh us hus).succeeds hc hroom us hus
  busy := nofun

theorem after?_viable {k : Kind} {p : Parse α} {deep : Bool} (hp : Viable r deep ks G p)
    (hF : ∀ j, F j → j ≠ k ∧ G j) : Viable r false [] F (after? k p) := by
  have hsome : Steady r F (do
      discard advance
      return some (← p)) := by
    have hrest := (hp.mono fun j hj ↦ (hF j hj).2).bind
      (fun a ↦ pure_viable (some a)) (.nil fun _ hj ↦ hj)
    exact advance_steady.discard.bind (fun _ ↦ hrest) (.any F _)
  apply kind_bind_viable
  · intro j
    split
    · exact hsome
    · exact (pure_viable none).steady
  · intro us hus
    have hne : firstKind (tokensOf [] ++ us) ≠ k := (hF _ hus).1
    rw [if_neg hne]
    exact (pure_viable none).toFresh

/-! Levels. -/

theorem Finishes.entering {p : Level → Parse α} {k : Nat} {used : List Token}
    (hc : c.HasRoom (k + 1)) (h : Finishes c.deepen F (p (Level.ofRoom k)) used) :
    Finishes c F (entering (Level.inner? (k + 1)) p) used := by
  obtain ⟨ks, hok⟩ := h
  refine ⟨ks, fun us hus ↦ ?_⟩
  obtain ⟨hks, a, ha⟩ := hok us hus
  refine ⟨hks, a, ?_⟩
  rw [Level.inner?, entering_facing _ _ _ hc.depth_lt, ha]
  rfl

theorem entering_steady {p : Level → Parse α}
    (hp : ∀ k, r = k + 1 → Steady k F (p (Level.ofRoom k))) :
    Steady r F (entering (Level.inner? r) p) := by
  intro c hc ts
  cases r with
  | zero =>
      unfold SteadyAt
      rw [Level.inner?, entering_none]
      exact .other rfl
  | succ k =>
      have hrun := hp k rfl hc.deepen ts
      have hopen (c' : Cursor) (vs : List Token) (h : c.Twin c') :=
        entering_facing (Level.ofRoom k) p vs (hc.twin h).depth_lt
      unfold SteadyAt at hrun ⊢
      rw [Level.inner?, entering_facing _ p ts hc.depth_lt]
      generalize p (Level.ofRoom k) (c.deepen.facing ts) = x at hrun
      cases hrun with
      | @ok used us a hagain hfinish =>
          refine .ok (fun c' vs htwin hnext ↦ ?_) fun hne ↦ (hfinish hne).entering hc
          rw [hopen c' _ htwin, hagain _ vs htwin.deepen ⟨hnext.head, hnext.stop⟩]
          rfl
      | found hd hf hagain hfinish =>
          refine .found hd.of_deepen hf (fun c' vs htwin hnext ↦ ?_) fun hroom hne ↦
            (hfinish hroom hne).entering hc
          obtain ⟨d', herror⟩ := hagain _ vs htwin.deepen ⟨hnext.head, hnext.stop⟩
          refine ⟨d', ?_⟩
          rw [hopen c' _ htwin, herror]
      | other hf => exact .other hf

/-- A level is only opened for something that is read. -/
theorem entering_viable {p : Level → Parse α}
    (hp : ∀ k, r = k + 1 → Viable k false ks F (p (Level.ofRoom k)))
    (hreads : ∀ ⦃c⦄, c.HasRoom r → Advances (fun _ ↦ true) (entering (Level.inner? r) p) c) :
    Viable r true ks F (entering (Level.inner? r) p) where
  steady := entering_steady fun k hk ↦ (hp k hk).steady
  succeeds c hc hroom us hus := by
    obtain ⟨k, rfl⟩ := Nat.exists_eq_succ_of_ne_zero (hroom rfl).ne'
    obtain ⟨hks, a, ha⟩ := (hp k rfl).succeeds hc.deepen nofun us hus
    refine ⟨hks, a, ?_⟩
    rw [Level.inner?, entering_facing _ _ _ hc.depth_lt, ha]
    rfl
  busy _ c hc ts a h := by
    obtain ⟨us, hus, hlt⟩ := hreads hc rfl h
    obtain rfl : ts = us := congrArg Cursor.ahead hus
    exact absurd hlt (Nat.lt_irrefl _)

/-! Repetitions. -/

section chain

variable {next? : Kind → Option β} {body : α → β → Parse α} (hstop : next? .eof = none)

theorem chain_fresh (hF : ∀ k, F k → next? k = none) (a : α) :
    Fresh r false [] F (chain next? body a) where
  succeeds _ hc _ _ hus := ⟨List.not_mem_nil, a, chain_of_none hc.stop (hF _ hus) a⟩
  busy := nofun

include hstop

/-- The chain goes on behind a body as it would have started there. -/
theorem chain_viable (hreads : ∀ ⦃c⦄, c.HasRoom r → Progresses next? body c)
    (hbody : ∀ a b, Steady r G (body a b)) (hF : ∀ k, F k → next? k = none ∧ G k) (a : α) :
    Viable r false [] F (chain next? body a) where
  toFresh := chain_fresh (fun k hk ↦ (hF k hk).1) a
  steady c hc ts := by
    induction hn : ts.length using Nat.strongRecOn generalizing a ts with
    | ind n ih =>
        cases hnext : next? (firstKind ts) with
        | none =>
            refine SteadyAt.of_eq hc.stop (fun c' vs htwin hsame ↦ ?_)
              ((pure_viable a).steady hc ts)
            rw [chain_of_none htwin.stop (by rw [hsame.firstKind_eq, hnext])]
            rfl
        | some b =>
            have hround : SteadyAt c F (body a b >>= chain next? body) ts := by
              refine SteadyAt.bind hc (hbody a b hc ts) (chain_fresh fun k hk ↦ (hF k hk).1)
                (.nil fun k hk ↦ (hF k hk).2) fun a' us hrun ↦ ?_
              obtain ⟨vs, hvs, hlt⟩ := hreads hc hnext hrun
              obtain rfl : us = vs := congrArg Cursor.ahead hvs
              exact ih us.length (hn ▸ hlt) a' us rfl
            refine SteadyAt.of_eq hc.stop (fun c' vs htwin hsame ↦ ?_) hround
            rw [chain_of_some htwin.stop hstop (hreads (hc.twin htwin))
              (by rw [hsame.firstKind_eq, hnext])]

end chain

theorem many_viable {q : Kind → Bool} {item : Parse α} (hq : q .eof = false)
    (hreads : ∀ ⦃c⦄, c.HasRoom r → Advances q item c) (hitem : Steady r G item)
    (hF : ∀ k, F k → q k = false ∧ G k) : Viable r false [] F (many q item) := by
  rw [many_eq]
  refine Viable.map (chain_viable (by simp [while?, hq]) (fun c hc ↦ (hreads hc).progresses)
    (fun found _ ↦ ?_) (fun k hk ↦ ⟨by simp [while?, hF k hk], (hF k hk).2⟩) []) List.reverse
  exact hitem.bind (fun a ↦ pure_viable (a :: found)) (.nil fun _ hk ↦ hk)

/-- What follows a token is read with it. -/
theorem Steady.length_lt_after {p : Parse α} (hp : Steady r F p) (hc : c.HasRoom r)
    (hts : firstKind ts ≠ .eof) {a : α} {d : Cursor}
    (h : (do discard advance; p : Parse α) (c.facing ts) = .ok a d) :
    ∃ us, d = c.facing us ∧ us.length < ts.length := by
  obtain ⟨t, us, rfl, -⟩ := exists_cons_of_firstKind rfl hts
  rw [discard_bind, advance_bind_cons] at h
  obtain ⟨used, vs, rfl, rfl⟩ := (hp hc us).of_ok h
  refine ⟨vs, rfl, ?_⟩
  rw [List.length_cons, List.length_append]
  omega

theorem Steady.advances_after {q : Kind → Bool} {p : Parse α} (hp : Steady r F p)
    (hq : q .eof = false) (hc : c.HasRoom r) : Advances q (do discard advance; p) c := by
  intro ts a d hfirst h
  refine hp.length_lt_after hc (fun heof ↦ ?_) h
  rw [heof, hq] at hfirst
  cases hfirst

section lists

variable {p : Parse α} {deep : Bool} (hp : Viable r deep ks G p)

include hp

theorem commaSeparated_viable (hF : ∀ k, F k → k ≠ .mark .comma ∧ G k) :
    Viable r deep ks F (commaSeparated p) := by
  have hothers : Viable r false [] F (many (· = .mark .comma) (do
      discard advance
      p)) := by
    refine many_viable rfl (fun c hc ↦ hp.steady.advances_after rfl hc)
      (advance_steady.discard.bind (fun _ ↦ hp) (.any G ks)) fun k hk ↦ ?_
    exact ⟨decide_eq_false (hF k hk).1, (hF k hk).2⟩
  have hrest (first : α) := hothers.map (first :: ·)
  have hlist := hp.bind hrest (.nil fun k hk ↦ (hF k hk).2)
  simp only [map_eq_pure_bind] at hlist
  rwa [Bool.or_false, List.append_nil] at hlist

theorem listUntil_viable {close : Kind} (hclose : close ≠ .mark .comma) (hG : G close) :
    Viable r false [] (· = close) (listUntil close p) := by
  apply kind_bind_viable
  · intro k
    split
    · exact (pure_viable []).steady
    · exact (commaSeparated_viable hp (by rintro k rfl; exact ⟨hclose, hG⟩)).steady
  · intro us hus
    have hfirst : firstKind (tokensOf [] ++ us) = close := hus
    rw [if_pos hfirst]
    exact (pure_viable []).toFresh

end lists

end Parse
end Offside
