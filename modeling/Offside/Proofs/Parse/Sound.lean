import Offside.Proofs.Parse.Facing

/-!
# Sound parsers

A parser is sound for a reading if all that it accepts is read so. The ways to put parsers
together preserve this, each for the reading that goes with it.
-/

namespace Offside

variable {α β : Type}

/-- The reading `S` in front of tokens of which `F` holds. -/
def Reading.before (S : Reading α) (F : List Token → Prop) : Reading α :=
  fun a n ts us ↦ S a n ts us ∧ F us

theorem Reading.Consumes.before {S : Reading α} (hS : S.Consumes) (F : List Token → Prop) :
    (S.before F).Consumes :=
  fun _ _ _ _ h ↦ hS h.1

/-- The cursors that a parser meets in the given mode: what they stop at is an end mark. -/
def Cursor.Proper (mode : Mode) (c : Cursor) : Prop :=
  c.stop.kind = .eof ∧ c.mode = mode

theorem Optionally.of_before {k : Kind} {S : Reading α} {F : List Token → Prop} {a : Option α}
    {n : Nat} {ts us : List Token} (h : Optionally k (S.before F) a n ts us) :
    Optionally k S a n ts us ∧ (a.isSome → F us) := by
  cases h with
  | none => exact ⟨.none, nofun⟩
  | some hkind hpart => exact ⟨.some hkind hpart.1, fun _ ↦ hpart.2⟩

namespace Parse

/-- Whatever `p` accepts in the given mode is read by `S` on at most `r` levels, and nothing else
changes. -/
def Sound (mode : Mode) (p : Parse α) (S : Reading α) (r : Nat) : Prop :=
  ∀ ⦃c : Cursor⦄ ⦃ts a d⦄, c.Proper mode → p (c.facing ts) = .ok a d →
    ∃ n us, n ≤ r ∧ S a n ts us ∧ d = c.facing us

variable {mode : Mode} {S T : Reading α} {p : Parse α} {r : Nat}

theorem Sound.imp (hp : Sound mode p S r) (hST : ∀ a n ts us, S a n ts us → T a n ts us) :
    Sound mode p T r := by
  intro c ts a d hc h
  obtain ⟨n, us, hn, hS, hd⟩ := hp hc h
  exact ⟨n, us, hn, hST a n ts us hS, hd⟩

theorem Sound.exists_of_bind {f : α → Parse β} {c d : Cursor} {ts : List Token} {b : β}
    (hp : Sound mode p S r) (hc : c.Proper mode) (h : (p >>= f) (c.facing ts) = .ok b d) :
    ∃ a n us, n ≤ r ∧ S a n ts us ∧ f a (c.facing us) = .ok b d := by
  obtain ⟨a, e, ha, h⟩ := exists_of_bind_eq_ok h
  obtain ⟨n, us, hn, hS, rfl⟩ := hp hc ha
  exact ⟨a, n, us, hn, hS, h⟩

theorem identifier_sound : Sound mode identifier (Named Token.lexeme) r := by
  intro c ts a d hc h
  obtain ⟨t, us, rfl, hkind, h⟩ := exists_of_expect_bind_eq_ok hc.1 (by decide) h
  obtain ⟨rfl, rfl⟩ := eq_of_pure_eq_ok h
  exact ⟨0, us, Nat.zero_le r, .mk hkind, rfl⟩

theorem after?_sound {k : Kind} (hk : k ≠ .eof) (hp : Sound mode p S r) :
    Sound mode (after? k p)
      (fun a n ts us ↦ Optionally k S a n ts us ∧ (a = none → firstKind us ≠ k)) r := by
  intro c ts a d hc h
  rw [after?, kind_bind hc.1] at h
  split at h
  · next hfirst =>
      obtain ⟨t, us, rfl, hkind⟩ := exists_cons_of_firstKind hfirst hk
      rw [discard_bind, advance_bind_cons] at h
      obtain ⟨b, n, vs, hn, hS, h⟩ := hp.exists_of_bind hc h
      obtain ⟨rfl, rfl⟩ := eq_of_pure_eq_ok h
      exact ⟨n, vs, hn, ⟨.some hkind hS, nofun⟩, rfl⟩
  · next hfirst =>
      obtain ⟨rfl, rfl⟩ := eq_of_pure_eq_ok h
      exact ⟨0, ts, Nat.zero_le r, ⟨.none, fun _ ↦ hfirst⟩, rfl⟩

/-- The items that `many` gathers stand one after the other, each where `q` holds. -/
theorem many_sound {q : Kind → Bool} (hq : q .eof = false) (hS : S.Consumes)
    (hp : ∀ ⦃c : Cursor⦄ ⦃ts a d⦄, c.Proper mode → q (firstKind ts) = true →
      p (c.facing ts) = .ok a d → ∃ n us, n ≤ r ∧ S a n ts us ∧ d = c.facing us) :
    Sound mode (many q p) ((Sequence S).before fun us ↦ q (firstKind us) = false) r := by
  intro c ts as d hc h
  obtain ⟨found, e, hchain, h⟩ := exists_of_bind_eq_ok h
  obtain ⟨rfl, rfl⟩ := eq_of_pure_eq_ok h
  obtain ⟨us, rfl, ⟨n, hn, hseq⟩, hnone⟩ := of_chain_eq_ok
    (P := fun (found : List α) us ↦ ∃ n ≤ r, Sequence S found.reverse n ts us) hc.1 (by simp [hq])
    (by
      intro found _ us found' d hfound hnext hround
      obtain ⟨n, hn, hseq⟩ := hfound
      have hfirst : q (firstKind us) = true := by
        by_contra hfalse
        simp [hfalse] at hnext
      obtain ⟨a, e, ha, h⟩ := exists_of_bind_eq_ok hround
      obtain ⟨rfl, rfl⟩ := eq_of_pure_eq_ok h
      obtain ⟨m, vs, hm, haS, rfl⟩ := hp hc hfirst ha
      refine ⟨vs, rfl, hS haS, max n m, Nat.max_le.mpr ⟨hn, hm⟩, ?_⟩
      rw [List.reverse_cons]
      exact hseq.snoc haS)
    ⟨0, Nat.zero_le r, .nil⟩ hchain
  refine ⟨n, us, hn, ⟨hseq, ?_⟩, rfl⟩
  by_contra htrue
  simp [htrue] at hnone

/-- A first item and the items that follow it after commas. -/
theorem Separated.of_sequence {a : α} {as : List α} {n m : Nat} {ts us vs : List Token}
    (hfirst : S a n ts us)
    (hothers : Sequence (fun a n ts us ↦ ∃ t ts', ts = t :: ts' ∧ t.kind = .mark .comma ∧
      S a n ts' us) as m us vs) : Separated S (a :: as) (max n m) ts vs := by
  induction as generalizing a n m ts us with
  | nil =>
      cases hothers with
      | nil =>
          rw [Nat.max_zero]
          exact .last hfirst
  | cons b bs ih =>
      cases hothers with
      | cons hnext hothers =>
          obtain ⟨t, ts', rfl, hcomma, hnext⟩ := hnext
          exact .more hfirst hcomma (ih hnext hothers)

theorem commaSeparated_sound (hS : S.Consumes) (hp : Sound mode p S r) :
    Sound mode (commaSeparated p)
      ((Separated S).before fun us ↦ firstKind us ≠ .mark .comma) r := by
  intro c ts as d hc h
  obtain ⟨a, n, us, hn, ha, h⟩ := hp.exists_of_bind hc h
  have hmany : Sound mode (many (· = .mark .comma) do discard advance; p)
      ((Sequence fun a n ts us ↦ ∃ t ts', ts = t :: ts' ∧ t.kind = .mark .comma ∧
        S a n ts' us).before fun us ↦ decide (firstKind us = .mark .comma) = false) r := by
    apply many_sound rfl
    · rintro a n - us ⟨t, ts, rfl, -, ha⟩
      exact Nat.lt_succ_of_lt (hS ha)
    · intro c ts a d hc hfirst h
      obtain ⟨t, us, rfl, hcomma⟩ :=
        exists_cons_of_firstKind (of_decide_eq_true hfirst) (by decide)
      rw [discard_bind, advance_bind_cons] at h
      obtain ⟨n, vs, hn, ha, rfl⟩ := hp hc h
      exact ⟨n, vs, hn, ⟨t, us, rfl, hcomma, ha⟩, rfl⟩
  obtain ⟨bs, m, vs, hm, ⟨hbs, hstop⟩, h⟩ := hmany.exists_of_bind hc h
  obtain ⟨rfl, rfl⟩ := eq_of_pure_eq_ok h
  exact ⟨max n m, vs, Nat.max_le.mpr ⟨hn, hm⟩,
    ⟨Separated.of_sequence ha hbs, of_decide_eq_false hstop⟩, rfl⟩

theorem listUntil_sound {close : Kind} (hS : S.Consumes) (hp : Sound mode p S r) :
    Sound mode (listUntil close p) (Listed S) r := by
  intro c ts as d hc h
  rw [listUntil, kind_bind hc.1] at h
  split at h
  · obtain ⟨rfl, rfl⟩ := eq_of_pure_eq_ok h
    exact ⟨0, ts, Nat.zero_le r, .none, rfl⟩
  · obtain ⟨n, us, hn, has, rfl⟩ := commaSeparated_sound hS hp hc h
    exact ⟨n, us, hn, .some has.1, rfl⟩

end Parse
end Offside
