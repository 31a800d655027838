import Mathlib.Data.List.Basic
import Offside.Grammar.Statement
import Offside.Proofs.Grammar.Reading

/-!
# Parsers on the tokens ahead

A parser that succeeds changes nothing but the tokens ahead of its cursor. So a cursor is fixed
here and the tokens that it faces are varied. Each primitive of the parsers gets an equation in
these terms, and the two repetitions get theirs: what a chain keeps, and how a chain goes on.
-/

namespace Offside

namespace Cursor

/-- The cursor with the tokens `ts` ahead of it. -/
def facing (c : Cursor) (ts : List Token) : Cursor :=
  { c with ahead := ts }

variable (c : Cursor) (ts us : List Token)

@[simp] theorem facing_facing : (c.facing ts).facing us = c.facing us := rfl

@[simp] theorem facing_ahead_self : c.facing c.ahead = c := rfl

@[simp] theorem ahead_facing : (c.facing ts).ahead = ts := rfl

@[simp] theorem stop_facing : (c.facing ts).stop = c.stop := rfl

@[simp] theorem mode_facing : (c.facing ts).mode = c.mode := rfl

@[simp] theorem limit_facing : (c.facing ts).limit = c.limit := rfl

@[simp] theorem depth_facing : (c.facing ts).depth = c.depth := rfl

@[simp] theorem stop_deepen : c.deepen.stop = c.stop := rfl

@[simp] theorem mode_deepen : c.deepen.mode = c.mode := rfl

@[simp] theorem limit_deepen : c.deepen.limit = c.limit := rfl

@[simp] theorem depth_deepen : c.deepen.depth = c.depth + 1 := rfl

variable {c}

theorem kind_current_facing (hc : c.stop.kind = .eof) :
    (c.facing ts).current.kind = firstKind ts := by
  cases ts with
  | nil => exact hc
  | cons t us => rfl

end Cursor

namespace Parse

variable {α β : Type}

theorem pure_eq (a : α) (c : Cursor) : (pure a : Parse α) c = .ok a c := rfl

theorem map_eq (f : α → β) (p : Parse α) (c : Cursor) :
    (f <$> p) c = match p c with
      | .ok a d => .ok (f a) d
      | .error e d => .error e d := by
  show EStateM.map f p c = _
  unfold EStateM.map
  cases p c <;> rfl

theorem discard_eq (p : Parse α) : (discard p : Parse Unit) = (fun _ ↦ ()) <$> p := rfl

theorem discard_bind (p : Parse α) (f : Unit → Parse β) :
    (discard p >>= f) = p >>= fun _ ↦ f () := by
  funext c
  rw [discard_eq, bind_eq, map_eq, bind_eq]
  cases p c <;> rfl

theorem map_bind {γ : Type} (f : α → β) (p : Parse α) (g : β → Parse γ) :
    (f <$> p >>= g) = p >>= fun a ↦ g (f a) := by
  funext c
  rw [bind_eq, map_eq, bind_eq]
  cases p c <;> rfl

theorem bind_of_ok {p : Parse α} {f : α → Parse β} {c d : Cursor} {a : α} (h : p c = .ok a d) :
    (p >>= f) c = f a d := by
  rw [bind_eq, h]

theorem bind_of_error {p : Parse α} {f : α → Parse β} {c d : Cursor} {e : Fault}
    (h : p c = .error e d) : (p >>= f) c = .error e d := by
  rw [bind_eq, h]

theorem exists_of_bind_eq_ok {p : Parse α} {f : α → Parse β} {c e : Cursor} {b : β}
    (h : (p >>= f) c = .ok b e) : ∃ a d, p c = .ok a d ∧ f a d = .ok b e := by
  rw [bind_eq] at h
  cases hp : p c with
  | ok a d => exact ⟨a, d, rfl, by rwa [hp] at h⟩
  | error e d => simp [hp] at h

theorem eq_of_pure_eq_ok {a b : α} {c d : Cursor} (h : (pure a : Parse α) c = .ok b d) :
    a = b ∧ c = d := by
  rw [pure_eq] at h
  cases h
  exact ⟨rfl, rfl⟩

theorem current_bind (f : Token → Parse β) (c : Cursor) :
    (current >>= f) c = f c.current c := rfl

theorem position_bind (f : Position → Parse β) (c : Cursor) :
    (position >>= f) c = f c.current.position c := rfl

theorem get_bind (f : Cursor → Parse β) (c : Cursor) : (get >>= f : Parse β) c = f c c := rfl

theorem advance_bind_cons (f : Token → Parse β) (c : Cursor) (t : Token) (us : List Token) :
    (advance >>= f) (c.facing (t :: us)) = f t (c.facing us) := rfl

theorem skipNewlines_bind (f : Unit → Parse β) (c : Cursor) (ts : List Token) :
    (skipNewlines >>= f) (c.facing ts) = f () (c.facing (skipBreaks ts)) := rfl

theorem expect_cons {k : Kind} {t : Token} (h : t.kind = k) (c : Cursor) (us : List Token) :
    expect k (c.facing (t :: us)) = .ok t (c.facing us) := by
  rw [expect_eq, if_pos (show (c.facing (t :: us)).current.kind = k from h)]
  rfl

theorem expect_bind_cons {k : Kind} {t : Token} (h : t.kind = k) (f : Token → Parse β)
    (c : Cursor) (us : List Token) :
    (expect k >>= f) (c.facing (t :: us)) = f t (c.facing us) :=
  bind_of_ok (expect_cons h c us)

/-- Without room a level cannot be opened, whatever would go on inside. -/
theorem entering_of_le {σ : Type} (inner : Option σ) (p : σ → Parse α) {c : Cursor}
    (h : c.limit ≤ c.depth) :
    entering inner p c = .error ⟨.nestingTooDeep c.limit, c.current.position⟩ c.deepen := by
  apply bind_of_error
  rw [enter_eq, if_pos (Nat.lt_succ_of_le h)]

/-- With room, `p` runs one level deeper. -/
theorem entering_facing {σ : Type} (s : σ) (p : σ → Parse α) {c : Cursor} (ts : List Token)
    (h : c.depth < c.limit) :
    entering (some s) p (c.facing ts) = match p s (c.deepen.facing ts) with
      | .ok a d => .ok a d.surface
      | .error e d => .error e d :=
  entering_some s p h

theorem exists_of_entering_eq_ok {σ : Type} {inner : Option σ} {p : σ → Parse α} {c d : Cursor}
    {ts : List Token} {a : α} (h : entering inner p (c.facing ts) = .ok a d) :
    ∃ s e, inner = some s ∧ p s (c.deepen.facing ts) = .ok a e ∧ d = e.surface := by
  cases inner with
  | none =>
      rw [entering_none] at h
      cases h
  | some s =>
      have hroom : c.depth < c.limit := by
        by_contra hfull
        have hle : (c.facing ts).limit ≤ (c.facing ts).depth := Nat.le_of_not_lt hfull
        rw [entering_of_le _ _ hle] at h
        cases h
      rw [entering_facing s p ts hroom] at h
      cases hrun : p s (c.deepen.facing ts) with
      | error f e => simp [hrun] at h
      | ok b e =>
          rw [hrun] at h
          cases h
          exact ⟨s, e, rfl, hrun, rfl⟩

section

variable {c : Cursor} (hc : c.stop.kind = .eof)

include hc

theorem kind_bind (f : Kind → Parse β) (ts : List Token) :
    (kind >>= f) (c.facing ts) = f (firstKind ts) (c.facing ts) := by
  rw [bind_of_ok (kind_eq _), Cursor.kind_current_facing ts hc]

theorem exists_of_expect_eq_ok {k : Kind} {ts : List Token} {t : Token} {d : Cursor}
    (hk : k ≠ .eof) (h : expect k (c.facing ts) = .ok t d) :
    ∃ us, ts = t :: us ∧ t.kind = k ∧ d = c.facing us := by
  rw [expect_eq, Cursor.kind_current_facing ts hc] at h
  split at h
  · next hfirst =>
      obtain ⟨u, us, rfl, hu⟩ := exists_cons_of_firstKind hfirst hk
      cases h
      exact ⟨us, rfl, hu, rfl⟩
  · cases h

theorem exists_of_expect_bind_eq_ok {k : Kind} {f : Token → Parse β} {ts : List Token} {b : β}
    {d : Cursor} (hk : k ≠ .eof) (h : (expect k >>= f) (c.facing ts) = .ok b d) :
    ∃ t us, ts = t :: us ∧ t.kind = k ∧ f t (c.facing us) = .ok b d := by
  obtain ⟨t, e, ht, h⟩ := exists_of_bind_eq_ok h
  obtain ⟨us, rfl, hk, rfl⟩ := exists_of_expect_eq_ok hc hk ht
  exact ⟨t, us, rfl, hk, h⟩

theorem exists_of_identifier_bind_eq_ok {f : String → Parse β} {ts : List Token} {b : β}
    {d : Cursor} (h : (identifier >>= f) (c.facing ts) = .ok b d) :
    ∃ t us, ts = t :: us ∧ t.kind = .identifier ∧ f t.lexeme (c.facing us) = .ok b d := by
  obtain ⟨name, e, hname, h⟩ := exists_of_bind_eq_ok h
  obtain ⟨t, us, rfl, hkind, hpure⟩ := exists_of_expect_bind_eq_ok hc (by decide) hname
  obtain ⟨rfl, rfl⟩ := eq_of_pure_eq_ok hpure
  exact ⟨t, us, rfl, hkind, h⟩

end

/-! Chains. -/

section

variable {next? : Kind → Option β} {body : α → β → Parse α} {c : Cursor}

/-- Every round of the chain reads a token, whatever it starts from. -/
def Progresses (next? : Kind → Option β) (body : α → β → Parse α) (c : Cursor) : Prop :=
  ∀ ⦃a b ts a' d⦄, next? (firstKind ts) = some b → body a b (c.facing ts) = .ok a' d →
    ∃ us, d = c.facing us ∧ us.length < ts.length

theorem chain_eq (a : α) (d : Cursor) :
    chain next? body a d = chainWithin next? body d.ahead a d := rfl

theorem chain_of_none (hc : c.stop.kind = .eof) {ts : List Token} (h : next? (firstKind ts) = none)
    (a : α) : chain next? body a (c.facing ts) = .ok a (c.facing ts) := by
  rw [chain_eq]
  cases ts with
  | nil => rfl
  | cons t us =>
      show (kind >>= _) (c.facing (t :: us)) = _
      rw [kind_bind hc, h]
      rfl

/-- A bound that is long enough does not matter. -/
theorem chainWithin_congr (hc : c.stop.kind = .eof) (hstop : next? .eof = none)
    (hbody : Progresses next? body c) {bound bound' ts : List Token}
    (hle : ts.length ≤ bound.length) (hle' : ts.length ≤ bound'.length) (a : α) :
    chainWithin next? body bound a (c.facing ts) =
      chainWithin next? body bound' a (c.facing ts) := by
  induction bound generalizing bound' ts a with
  | nil =>
      obtain rfl := List.length_eq_zero_iff.mp (Nat.le_zero.mp hle)
      cases bound' with
      | nil => rfl
      | cons u bound' =>
          show _ = (kind >>= _) (c.facing [])
          rw [kind_bind hc, firstKind_nil, hstop]
          rfl
  | cons t bound ih =>
      cases bound' with
      | nil =>
          obtain rfl := List.length_eq_zero_iff.mp (Nat.le_zero.mp hle')
          show (kind >>= _) (c.facing []) = _
          rw [kind_bind hc, firstKind_nil, hstop]
          rfl
      | cons u bound' =>
          show (kind >>= _) (c.facing ts) = (kind >>= _) (c.facing ts)
          rw [kind_bind hc, kind_bind hc]
          cases hnext : next? (firstKind ts) with
          | none => rfl
          | some b =>
              show (body a b >>= _) _ = (body a b >>= _) _
              cases hrun : body a b (c.facing ts) with
              | error e d => rw [bind_of_error hrun, bind_of_error hrun]
              | ok a' d =>
                  obtain ⟨us, rfl, hlt⟩ := hbody hnext hrun
                  rw [bind_of_ok hrun, bind_of_ok hrun]
                  rw [List.length_cons] at hle hle'
                  exact ih (by omega) (by omega) a'

/-- A round of a chain, after which the chain goes on. -/
theorem chain_of_some (hc : c.stop.kind = .eof) (hstop : next? .eof = none)
    (hbody : Progresses next? body c) {ts : List Token} {b : β}
    (h : next? (firstKind ts) = some b) (a : α) :
    chain next? body a (c.facing ts) = (body a b >>= chain next? body) (c.facing ts) := by
  cases ts with
  | nil => simp [hstop] at h
  | cons t us =>
      rw [chain_eq]
      show (kind >>= _) (c.facing (t :: us)) = _
      rw [kind_bind hc, h]
      show (body a b >>= _) _ = _
      cases hrun : body a b (c.facing (t :: us)) with
      | error e d => rw [bind_of_error hrun, bind_of_error hrun]
      | ok a' d =>
          obtain ⟨vs, rfl, hlt⟩ := hbody h hrun
          rw [bind_of_ok hrun, bind_of_ok hrun]
          exact chainWithin_congr hc hstop hbody (Nat.le_of_lt_succ hlt) (Nat.le_refl _) a'

/-- What every round keeps holds at the end, where the chain finds nothing to go on with. -/
theorem of_chain_eq_ok {P : α → List Token → Prop} (hc : c.stop.kind = .eof)
    (hstop : next? .eof = none)
    (hround : ∀ ⦃a b ts a' d⦄, P a ts → next? (firstKind ts) = some b →
      body a b (c.facing ts) = .ok a' d →
        ∃ us, d = c.facing us ∧ us.length < ts.length ∧ P a' us)
    {a a' : α} {ts : List Token} {d : Cursor} (ha : P a ts)
    (h : chain next? body a (c.facing ts) = .ok a' d) :
    ∃ us, d = c.facing us ∧ P a' us ∧ next? (firstKind us) = none := by
  have key : ∀ (bound ts : List Token) (a : α), ts.length ≤ bound.length → P a ts →
      chainWithin next? body bound a (c.facing ts) = .ok a' d →
        ∃ us, d = c.facing us ∧ P a' us ∧ next? (firstKind us) = none := by
    intro bound
    induction bound with
    | nil =>
        intro ts a hle ha h
        obtain rfl := List.length_eq_zero_iff.mp (Nat.le_zero.mp hle)
        obtain ⟨rfl, rfl⟩ := eq_of_pure_eq_ok h
        exact ⟨[], rfl, ha, hstop⟩
    | cons t bound ih =>
        intro ts a hle ha h
        replace h : (kind >>= _) (c.facing ts) = _ := h
        rw [kind_bind hc] at h
        cases hnext : next? (firstKind ts) with
        | none =>
            rw [hnext] at h
            obtain ⟨rfl, rfl⟩ := eq_of_pure_eq_ok h
            exact ⟨ts, rfl, ha, hnext⟩
        | some b =>
            rw [hnext] at h
            obtain ⟨a₁, e, hrun, h⟩ := exists_of_bind_eq_ok h
            obtain ⟨us, rfl, hlt, hus⟩ := hround ha hnext hrun
            rw [List.length_cons] at hle
            exact ih us a₁ (by omega) hus h
  exact key ts ts a (Nat.le_refl _) ha h

end

end Parse
end Offside
