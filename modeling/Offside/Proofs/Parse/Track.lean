import Offside.Proofs.Parse.CompareLevel

/-!
# The track of a run

A run only goes forward. If it succeeds it leaves no level open that it has opened; if it fails,
the levels stay open that were open where the fault was found. A run on tokens at other positions
goes the same way, and so does a run that was given parsers for what lies deeper than any level
that can still be opened.
-/

namespace Offside

namespace Cursor

/-- The cursor with all its tokens at other positions. -/
def move (f : Position → Position) (c : Cursor) : Cursor :=
  { c with
    ahead := c.ahead.map (Token.mapPosition f)
    stop := c.stop.mapPosition f
    beyond := c.beyond.map (Token.mapPosition f) }

variable {f : Position → Position}

theorem current_move (c : Cursor) : (c.move f).current = c.current.mapPosition f := by
  obtain ⟨_ | ⟨t, ts⟩, stop, beyond, depth, limit, mode⟩ := c <;> rfl

theorem advance_move (c : Cursor) :
    (c.move f).advance = (c.advance.1.mapPosition f, c.advance.2.move f) := by
  obtain ⟨_ | ⟨t, ts⟩, stop, beyond, depth, limit, mode⟩ := c <;> rfl

theorem skipNewlines_move (c : Cursor) : (c.move f).skipNewlines = c.skipNewlines.move f := by
  simp only [skipNewlines, move, List.dropWhile_map]
  rfl

theorem move_id (c : Cursor) : c.move id = c := by
  have hmap : List.map (Token.mapPosition id) = id := List.map_id_fun
  simp only [move, hmap]
  rfl

theorem exists_advance_eq_facing (c : Cursor) :
    ∃ us, us <:+ c.ahead ∧ c.advance.2 = c.facing us := by
  obtain ⟨_ | ⟨t, ts⟩, stop, beyond, depth, limit, mode⟩ := c
  · exact ⟨[], List.suffix_rfl, rfl⟩
  · exact ⟨ts, List.suffix_cons t ts, rfl⟩

/-- Going on from `c` one can come to `d`, with any number of levels open. -/
structure Onward (c d : Cursor) : Prop where
  ahead : d.ahead <:+ c.ahead
  stop : d.stop = c.stop
  beyond : d.beyond = c.beyond
  limit : d.limit = c.limit
  mode : d.mode = c.mode

theorem Onward.refl (c : Cursor) : c.Onward c :=
  ⟨List.suffix_rfl, rfl, rfl, rfl, rfl⟩

theorem Onward.facing {c : Cursor} {us : List Token} (h : us <:+ c.ahead) :
    c.Onward (c.facing us) :=
  ⟨h, rfl, rfl, rfl, rfl⟩

/-- A run from `c` can have been given up at `d` for the given cause. Only where no level could
be opened any more has one been counted that is not open. -/
structure GivesUp (c d : Cursor) (cause : Cause) : Prop extends c.Onward d where
  le_depth : c.depth ≤ d.depth
  depth_le : d.depth ≤ max c.depth c.limit ∨
    cause = .nestingTooDeep c.limit ∧ d.depth = max c.depth c.limit + 1

theorem GivesUp.refl (c : Cursor) (cause : Cause) : c.GivesUp c cause :=
  ⟨.refl c, le_rfl, .inl (le_max_left ..)⟩

theorem GivesUp.deepen (c : Cursor) : c.GivesUp c.deepen (.nestingTooDeep c.limit) := by
  refine ⟨⟨List.suffix_rfl, rfl, rfl, rfl, rfl⟩, Nat.le_succ _, ?_⟩
  by_cases hroom : c.depth < c.limit
  · exact .inl (Nat.le_trans hroom (le_max_right ..))
  · refine .inr ⟨rfl, ?_⟩
    rw [max_eq_left (Nat.le_of_not_lt hroom)]
    rfl

theorem GivesUp.of_facing {c d : Cursor} {us : List Token} {cause : Cause} (hus : us <:+ c.ahead)
    (h : (c.facing us).GivesUp d cause) : c.GivesUp d cause :=
  { h with ahead := h.ahead.trans hus }

theorem GivesUp.of_deepen {c d : Cursor} {cause : Cause} (hroom : c.depth < c.limit)
    (h : c.deepen.GivesUp d cause) : c.GivesUp d cause := by
  have hmax : max c.deepen.depth c.limit = max c.depth c.limit := by
    rw [max_eq_right hroom, max_eq_right hroom.le]
  refine { h with le_depth := Nat.le_of_succ_le h.le_depth, depth_le := ?_ }
  rw [← hmax]
  exact h.depth_le

end Cursor

/-- The fault at another position. -/
def Fault.move (f : Position → Position) (e : Fault) : Fault :=
  ⟨e.cause, f e.position⟩

/-- What a run from `c` comes to, and what a run from the moved cursor comes to. -/
inductive Cursor.Tracks {α : Type} (f : Position → Position) (g : α → α) (c : Cursor) :
    EStateM.Result Fault Cursor α → EStateM.Result Fault Cursor α → Prop
  | ok {a : α} {us : List Token} (h : us <:+ c.ahead) :
      Tracks f g c (.ok a (c.facing us)) (.ok (g a) ((c.facing us).move f))
  | error {e : Fault} {d : Cursor} (h : c.GivesUp d e.cause) :
      Tracks f g c (.error e d) (.error (e.move f) (d.move f))

theorem Cursor.Tracks.eq {α : Type} {c : Cursor} {x y : EStateM.Result Fault Cursor α}
    (h : c.Tracks id id x y) : x = y := by
  cases h with
  | ok _ => rw [move_id, id]
  | error _ =>
      rw [move_id]
      rfl

theorem Cursor.Tracks.mono {α : Type} {f : Position → Position} {g : α → α} {c : Cursor}
    {us : List Token} {x y : EStateM.Result Fault Cursor α} (h : (c.facing us).Tracks f g x y)
    (hus : us <:+ c.ahead) : c.Tracks f g x y := by
  cases h with
  | ok hvs => exact .ok (hvs.trans hus)
  | error h => exact .error (h.of_facing hus)

namespace Parse

variable {α β σ : Type} {f : Position → Position} {n : Nat} {g : α → α} {h : β → β} {k : Kind}
  {p p' : Parse α}

/-- Runs of `p` and `p'` track each other, from cursors at a token of kind `k` at which no more
than `n` levels can be opened. -/
def Tracked (f : Position → Position) (n : Nat) (g : α → α) (k : Kind) (p p' : Parse α) : Prop :=
  ∀ ⦃c : Cursor⦄, c.limit ≤ c.depth + n → c.current.kind = k → c.Tracks f g (p c) (p' (c.move f))

theorem Tracked.bind {q q' : α → Parse β} (hp : Tracked f n g k p p')
    (hq : ∀ a j, Tracked f n h j (q a) (q' (g a))) : Tracked f n h k (p >>= q) (p' >>= q') := by
  intro c hn hk
  have hrun := hp hn hk
  rw [bind_eq, bind_eq]
  generalize p c = x at hrun ⊢
  generalize p' (c.move f) = y at hrun ⊢
  cases hrun with
  | @ok a us hus => exact (hq a _ (c := c.facing us) hn rfl).mono hus
  | error hgiven => exact .error hgiven

theorem advance_tracked : Tracked f n (Token.mapPosition f) k advance advance := by
  intro c _ _
  obtain ⟨us, hus, hd⟩ := c.exists_advance_eq_facing
  rw [advance_eq, advance_eq, Cursor.advance_move, hd]
  exact .ok hus

theorem current_tracked {q q' : Token → Parse β}
    (hq : ∀ t, t.kind = k → Tracked f n h k (q t) (q' (t.mapPosition f))) :
    Tracked f n h k (current >>= q) (current >>= q') := by
  intro c hn hk
  rw [current_bind, current_bind, Cursor.current_move]
  exact hq c.current hk hn hk

theorem ahead_tracked {q q' : List Token → Parse β}
    (hq : ∀ ts us, us.length = ts.length → Tracked f n h k (q ts) (q' us)) :
    Tracked f n h k (get >>= fun c ↦ q c.ahead) (get >>= fun c ↦ q' c.ahead) := by
  intro c hn hk
  rw [get_bind, get_bind]
  exact hq _ _ (List.length_map _) hn hk

theorem skipNewlines_tracked (k : Kind) : Tracked f n id k skipNewlines skipNewlines := by
  intro c _ _
  rw [skipNewlines_eq, skipNewlines_eq, Cursor.skipNewlines_move]
  exact .ok (List.dropWhile_suffix _)

theorem throw_tracked (cause : Cause) (position : Position) :
    Tracked f n g k (throw ⟨cause, position⟩) (throw ⟨cause, f position⟩) :=
  fun c _ _ ↦ .error (.refl c cause)

end Parse

/-- The runs that track each other while no more than `n` levels can be opened. -/
def tracking (f : Position → Position) (n : Nat) : Comparison where
  place := f
  Rel := Parse.Tracked f n
  rel_pure _ _ _ _ := .ok List.suffix_rfl
  rel_bind := .bind
  rel_current := Parse.current_tracked
  rel_ahead := Parse.ahead_tracked
  rel_skipNewlines := Parse.skipNewlines_tracked
  rel_advance _ := Parse.advance_tracked
  rel_throw _ := Parse.throw_tracked _ _

theorem tracking_uniform (f : Position → Position) (n : Nat) : (tracking f n).Uniform where
  advance _ := Parse.advance_tracked
  throw _ := Parse.throw_tracked _ _
  mode hf c hn hk := hf c.mode hn hk

namespace Parse

variable {α σ : Type} {f : Position → Position} {n : Nat} {g : α → α} {k : Kind}

/-- With no level left to be opened it does not matter what is inside. -/
theorem entering_tracked {inner inner' : Option σ} {q q' : σ → Parse α}
    (hq : ∀ m, n = m + 1 → ∃ s s', inner = some s ∧ inner' = some s' ∧
      Tracked f m g k (q s) (q' s')) :
    Tracked f n g k (entering inner q) (entering inner' q') := by
  intro c hn hk
  by_cases hroom : c.depth < c.limit
  · obtain ⟨m, rfl⟩ : ∃ m, n = m + 1 := Nat.exists_eq_succ_of_ne_zero (by omega)
    obtain ⟨s, s', rfl, rfl, hs⟩ := hq m rfl
    have hm : c.limit ≤ c.deepen.depth + m := by
      rw [Cursor.depth_deepen]
      omega
    have hrun := hs (c := c.deepen) hm hk
    have hmove : (c.move f).deepen = c.deepen.move f := rfl
    rw [entering_some s q hroom, entering_some s' q' (c := c.move f) hroom, hmove]
    generalize q s c.deepen = x at hrun ⊢
    generalize q' s' (c.deepen.move f) = y at hrun ⊢
    cases hrun with
    | ok hus => exact .ok (c := c) hus
    | error hgiven => exact .error (hgiven.of_deepen hroom)
  · have hle : c.limit ≤ c.depth := Nat.le_of_not_lt hroom
    rw [entering_of_le _ _ hle, entering_of_le _ _ (c := c.move f) hle, Cursor.current_move]
    exact .error (e := ⟨.nestingTooDeep c.limit, c.current.position⟩) (.deepen c)

end Parse

namespace Level

open Parse

variable {f : Position → Position} {n : Nat}

theorem above_tracked {inner inner' : Option Level} (hinner : ∀ m, n = m + 1 →
    ∃ l l', inner = some l ∧ inner' = some l' ∧ l.Compares (tracking f m) l') :
    (above inner).Compares (tracking f n) (above inner') := by
  have hentering {α : Type} {g : α → α} {k : Kind} {q q' : Level → Parse α}
      (hq : ∀ m l l', l.Compares (tracking f m) l' → Tracked f m g k (q l) (q' l')) :
      Tracked f n g k (entering inner q) (entering inner' q') := by
    apply entering_tracked
    intro m hm
    obtain ⟨l, l', hinner, hinner', hl⟩ := hinner m hm
    exact ⟨l, l', hinner, hinner', hq m l l' hl⟩
  rw [above_eq_around, above_eq_around]
  apply around_compares
  · exact fun p k ↦ hentering fun m l l' hl ↦ hl.climb p k
  · exact fun k op hop ↦ hentering fun m l l' hl ↦ hl.prefixed hop
  · exact fun k ↦ hentering fun m l l' hl ↦ hl.blockBody_of_uniform (tracking_uniform f m) k

/-- `n` levels on top of each other, and what there is below them. -/
def tower (bottom : Option Level) : Nat → Level
  | 0 => above bottom
  | n + 1 => above (some (tower bottom n))

theorem ofRoom_eq_tower (n : Nat) : ofRoom n = tower none n := by
  induction n with
  | zero => rfl
  | succ n ih => rw [ofRoom, ih, tower]

/-- Levels that cannot be reached do not matter. -/
theorem tower_tracked (bottom bottom' : Option Level) (n i j : Nat) :
    (tower bottom (n + i)).Compares (tracking f n) (tower bottom' (n + j)) := by
  induction n with
  | zero =>
      rw [Nat.zero_add, Nat.zero_add]
      cases i <;> cases j <;> exact above_tracked nofun
  | succ n ih =>
      rw [Nat.succ_add, Nat.succ_add]
      refine above_tracked fun m hm ↦ ?_
      obtain rfl := Nat.succ.inj hm
      exact ⟨_, _, rfl, rfl, ih⟩

end Level
end Offside
