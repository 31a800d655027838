import Offside.Program
import Offside.Proofs.Parse.Track

/-!
# Guarded runs

The opening of levels can be guarded in other ways than by the limit of the cursor, or not at all.
If one guard refuses everything that another one refuses, a run under the first goes as one under
the second does, up to a level that the first alone refuses.
-/

namespace Offside

/-- The fault of a level that must not be opened here. -/
def Cursor.tooDeep (c : Cursor) : Fault :=
  ⟨.nestingTooDeep c.limit, c.current.position⟩

/-- What decides whether a level is refused, from the number of levels that are open with it and
from the cursor inside. -/
abbrev Guard := Nat → Cursor → Bool

namespace Guard

/-- No level is refused. -/
def never : Guard :=
  fun _ _ ↦ false

/-- The cursor decides, by its own count of the open levels. -/
def byCount : Guard :=
  fun _ c ↦ c.limit < c.depth

/-- Nothing but the `n`th level at `d` is refused. -/
def only (n : Nat) (d : Cursor) : Guard :=
  fun m c ↦ m = n ∧ c = d

/-- A run that is guarded, with no more than `top` levels to be opened, does not get past `d`. -/
def Stops (guard : Guard) (top : Nat) (d : Cursor) : Prop :=
  guard d.depth d = true ∨ top < d.depth

end Guard

namespace Parse

variable {α : Type}

/-- Opens the `n`th level. The count goes up even if the level is refused. -/
def enterUnless (guard : Guard) (n : Nat) : Parse Unit := do
  modify Cursor.deepen
  let c ← get
  if guard n c then reject (.nestingTooDeep c.limit)

/-- Runs `p` inside the `n`th level, where it is given the next level. -/
def opening (guard : Guard) (n : Nat) (inner : Option Level) (p : Level → Parse α) : Parse α := do
  enterUnless guard n
  match inner with
  | none => reject (.nestingTooDeep (← get).limit)
  | some l =>
      let a ← p l
      leave
      return a

theorem enterUnless_eq (guard : Guard) (n : Nat) (c : Cursor) :
    enterUnless guard n c =
      if guard n c.deepen then .error c.deepen.tooDeep c.deepen else .ok () c.deepen := by
  show (if guard n c.deepen then _ else _ : Parse Unit) c.deepen = _
  split <;> rfl

theorem entering_eq_opening (n : Nat) (inner : Option Level) (p : Level → Parse α) :
    entering inner p = opening .byCount n inner p := by
  have henter : enter = enterUnless .byCount n := by
    funext c
    rw [enter_eq, enterUnless_eq]
    simp only [Guard.byCount, decide_eq_true_eq]
    rfl
  unfold entering opening
  rw [henter]
  cases inner <;> rfl

section

variable {guard : Guard} {n : Nat} {c : Cursor}

theorem opening_of_refused (h : guard n c.deepen = true) (inner : Option Level)
    (q : Level → Parse α) : opening guard n inner q c = .error c.deepen.tooDeep c.deepen := by
  simp only [opening, bind_eq, enterUnless_eq, h]
  rfl

theorem opening_none (guard : Guard) (n : Nat) (q : Level → Parse α) (c : Cursor) :
    opening guard n none q c = .error c.deepen.tooDeep c.deepen := by
  cases h : guard n c.deepen with
  | true => exact opening_of_refused h none q
  | false =>
      simp only [opening, bind_eq, enterUnless_eq, h]
      rfl

theorem opening_some (h : guard n c.deepen = false) (l : Level) (q : Level → Parse α) :
    opening guard n (some l) q c = match q l c.deepen with
      | .ok a d => .ok a d.surface
      | .error e d => .error e d := by
  simp only [opening, bind_eq, enterUnless_eq, h, Bool.false_eq_true, if_false]
  cases q l c.deepen <;> rfl

end

section

variable {guard : Guard} {top : Nat} {inner : Option Level} {c : Cursor}
  (hinner : inner = none ↔ top ≤ c.depth)

include hinner

theorem opening_of_stops (h : guard.Stops top c.deepen) (q : Level → Parse α) :
    opening guard (c.depth + 1) inner q c = .error c.deepen.tooDeep c.deepen := by
  rcases h with hguard | htop
  · exact opening_of_refused hguard inner q
  · rw [hinner.mpr (Nat.le_of_lt_succ htop)]
    exact opening_none guard _ q c

theorem exists_opening_eq (h : ¬ guard.Stops top c.deepen) :
    ∃ l, inner = some l ∧ ∀ q : Level → Parse α, opening guard (c.depth + 1) inner q c =
      match q l c.deepen with
        | .ok a d => .ok a d.surface
        | .error e d => .error e d := by
  obtain ⟨hguard, htop⟩ := not_or.mp h
  obtain ⟨l, rfl⟩ : ∃ l, inner = some l := by
    refine Option.ne_none_iff_exists'.mp fun hnone ↦ htop ?_
    exact Nat.lt_succ_of_le (hinner.mp hnone)
  exact ⟨l, rfl, opening_some (Bool.eq_false_iff.mpr hguard) l⟩

end

end Parse

namespace Level

open Parse

/-- The level at which `n` are open and `room` more can be, as far as the guard lets them. -/
def nested (guard : Guard) : Nat → Nat → Level
  | 0, n => around (opening guard (n + 1) none)
  | room + 1, n => around (opening guard (n + 1) (some (nested guard room (n + 1))))

/-- The level after that one, which is opened inside. -/
def inside (guard : Guard) (n : Nat) : Nat → Option Level
  | 0 => none
  | room + 1 => some (nested guard room (n + 1))

theorem nested_eq_around (guard : Guard) (room n : Nat) :
    nested guard room n = around (opening guard (n + 1) (inside guard n room)) := by
  cases room <;> rfl

/-- The count of the cursor is the guard that the parser has. -/
theorem ofRoom_eq_nested (room n : Nat) : ofRoom room = nested .byCount room n := by
  have habove (n : Nat) (inner : Option Level) :
      above inner = around (opening .byCount (n + 1) inner) := by
    have hopening : @entering Level = fun _ inner ↦ opening .byCount (n + 1) inner := by
      funext α inner p
      exact entering_eq_opening (n + 1) inner p
    rw [above_eq_around, hopening]
  induction room generalizing n with
  | zero => exact habove n none
  | succ room ih =>
      rw [ofRoom, ih (n + 1)]
      exact habove n _

theorem inside_eq_none_iff {guard : Guard} {room n top : Nat} (hroom : n + room = top) :
    inside guard n room = none ↔ top ≤ n := by
  subst hroom
  cases room with
  | zero => exact iff_of_true rfl le_rfl
  | succ room => exact iff_of_false nofun (by omega)

end Level

namespace Cursor

/-- What a run from `c` can come to once it has been at `d`. -/
inductive Passes {α : Type} (c d : Cursor) : EStateM.Result Fault Cursor α → Prop
  | ok {a : α} {us : List Token} (h : us <:+ d.ahead) : Passes c d (.ok a (c.facing us))
  | error {e : Fault} {f : Cursor} (h : d.Onward f) : Passes c d (.error e f)

/-- What two runs from `c` come to if the first stops at cursors with `S` and the second at
cursors with `S'`. -/
inductive Forks {α : Type} (S S' : Cursor → Prop) (g : α → α) (c : Cursor) :
    EStateM.Result Fault Cursor α → EStateM.Result Fault Cursor α → Prop
  | ok {a : α} {us : List Token} (h : us <:+ c.ahead) :
      Forks S S' g c (.ok a (c.facing us)) (.ok (g a) (c.facing us))
  | error {e : Fault} {d : Cursor} (h : c.Onward d)
      (he : ∀ limit, e.cause ≠ .nestingTooDeep limit) : Forks S S' g c (.error e d) (.error e d)
  | stopped {d : Cursor} (h : c.Onward d) (hd : S d) (hd' : S' d) :
      Forks S S' g c (.error d.tooDeep d) (.error d.tooDeep d)
  | refused {d : Cursor} {x : EStateM.Result Fault Cursor α} (h : c.Onward d) (hd : ¬ S d)
      (hd' : S' d) (hx : c.Passes d x) : Forks S S' g c x (.error d.tooDeep d)

variable {α : Type} {S S' : Cursor → Prop} {g : α → α} {c d : Cursor}
  {x y : EStateM.Result Fault Cursor α} {us : List Token}

theorem Onward.trans {c d e : Cursor} (h : c.Onward d) (h' : d.Onward e) : c.Onward e :=
  ⟨h'.ahead.trans h.ahead, h'.stop.trans h.stop, h'.beyond.trans h.beyond,
    h'.limit.trans h.limit, h'.mode.trans h.mode⟩

/-- What comes later only depends on the tokens ahead. -/
theorem Onward.of_facing (h : c.Onward d) (hus : us <:+ d.ahead) : d.Onward (c.facing us) :=
  ⟨hus, h.stop.symm, h.beyond.symm, h.limit.symm, h.mode.symm⟩

theorem Passes.mono (h : (c.facing us).Passes d x) : c.Passes d x := by
  cases h with
  | ok hvs => exact .ok hvs
  | error h => exact .error h

theorem Passes.of_facing (h : (c.facing us).Passes (c.facing us) x) (hd : d.Onward (c.facing us)) :
    c.Passes d x := by
  cases h with
  | ok hvs => exact .ok (hvs.trans hd.ahead)
  | error h => exact .error (hd.trans h)

/-- A run passes the cursor that it starts from. -/
theorem Forks.passes (h : c.Forks S S' g x y) : c.Passes c x := by
  cases h with
  | ok hus => exact .ok hus
  | error hd _ => exact .error hd
  | stopped hd _ _ => exact .error hd
  | refused hd _ _ hx =>
      cases hx with
      | ok hus => exact .ok (hus.trans hd.ahead)
      | error h => exact .error (hd.trans h)

theorem Forks.mono (h : (c.facing us).Forks S S' g x y) (hus : us <:+ c.ahead) :
    c.Forks S S' g x y := by
  have hfacing : c.Onward (c.facing us) := .facing hus
  cases h with
  | ok hvs => exact .ok (hvs.trans hus)
  | error hd he => exact .error (hfacing.trans hd) he
  | stopped hd hS hS' => exact .stopped (hfacing.trans hd) hS hS'
  | refused hd hS hS' hx => exact .refused (hfacing.trans hd) hS hS' hx.mono

end Cursor

namespace Parse

variable {α β : Type} {S S' : Cursor → Prop} {n : Nat} {g : α → α} {h : β → β} {k : Kind}
  {p p' : Parse α}

/-- Runs of `p` and `p'` fork only at a level that the second alone refuses, from cursors at a
token of kind `k` with `n` open levels. -/
def ForksAt (S S' : Cursor → Prop) (n : Nat) (g : α → α) (k : Kind) (p p' : Parse α) : Prop :=
  ∀ ⦃c : Cursor⦄, c.depth = n → c.current.kind = k → c.Forks S S' g (p c) (p' c)

theorem ForksAt.bind {q q' : α → Parse β} (hp : ForksAt S S' n g k p p')
    (hq : ∀ a j, ForksAt S S' n h j (q a) (q' (g a))) :
    ForksAt S S' n h k (p >>= q) (p' >>= q') := by
  intro c hn hk
  have hrun := hp hn hk
  rw [bind_eq, bind_eq]
  generalize p c = x at hrun ⊢
  generalize p' c = y at hrun ⊢
  cases hrun with
  | @ok a us hus => exact (hq a _ (c := c.facing us) hn rfl).mono hus
  | error hd he => exact .error hd he
  | stopped hd hS hS' => exact .stopped hd hS hS'
  | refused hd hS hS' hx =>
      refine .refused hd hS hS' ?_
      cases hx with
      | error hf => exact .error hf
      | @ok a us hus =>
          have hpasses := (hq a _ (c := c.facing us) hn rfl).passes
          exact hpasses.of_facing (hd.of_facing hus)

theorem throw_forks {cause : Cause} {position : Position}
    (hcause : ∀ limit, cause ≠ .nestingTooDeep limit) :
    ForksAt S S' n g k (throw ⟨cause, position⟩) (throw ⟨cause, position⟩) :=
  fun c _ _ ↦ .error (.refl c) hcause

theorem advance_forks : ForksAt S S' n id k advance advance := by
  intro c _ _
  obtain ⟨us, hus, hd⟩ := c.exists_advance_eq_facing
  rw [advance_eq, hd]
  exact .ok hus

end Parse

/-- The runs that fork only at a level that the second alone refuses. -/
def forking (S S' : Cursor → Prop) (n : Nat) : Comparison where
  place := id
  Rel := Parse.ForksAt S S' n
  rel_pure _ _ _ _ := .ok List.suffix_rfl
  rel_bind := .bind
  rel_current hf c hn hk := hf c.current hk hn hk
  rel_ahead hf c hn hk := hf c.ahead c.ahead rfl hn hk
  rel_skipNewlines _ _ _ _ := .ok (List.dropWhile_suffix _)
  rel_advance _ := Parse.advance_forks
  rel_throw h := Parse.throw_forks h.ne_nestingTooDeep

theorem forking_uniform (S S' : Cursor → Prop) (n : Nat) : (forking S S' n).Uniform where
  advance _ := Parse.advance_forks
  throw h := Parse.throw_forks h
  mode hf c hn hk := hf c.mode hn hk

namespace Parse

variable {α : Type} {guard guard' : Guard} {top top' n : Nat} {inner inner' : Option Level}
  {g : α → α} {k : Kind} {q : Level → Parse α}

/-- A level is opened by both runs, by none or by the first alone. -/
theorem opening_forks (hle : ∀ d, guard.Stops top d → guard'.Stops top' d)
    (hinner : inner = none ↔ top ≤ n) (hinner' : inner' = none ↔ top' ≤ n)
    (hself : ∀ l, inner = some l →
      ForksAt (guard.Stops top) (guard.Stops top) (n + 1) g k (q l) (q l))
    (hboth : ∀ l l', inner = some l → inner' = some l' →
      ForksAt (guard.Stops top) (guard'.Stops top') (n + 1) g k (q l) (q l')) :
    ForksAt (guard.Stops top) (guard'.Stops top') n g k (opening guard (n + 1) inner q)
      (opening guard' (n + 1) inner' q) := by
  rintro c rfl hk
  have hdeepen : c.Onward c.deepen := ⟨List.suffix_rfl, rfl, rfl, rfl, rfl⟩
  by_cases hS : guard.Stops top c.deepen
  · have hS' := hle _ hS
    rw [opening_of_stops hinner hS, opening_of_stops hinner' hS']
    exact .stopped hdeepen hS hS'
  · obtain ⟨l, hl, hrun⟩ := exists_opening_eq (α := α) hinner hS
    rw [hrun]
    by_cases hS' : guard'.Stops top' c.deepen
    · rw [opening_of_stops hinner' hS']
      -- the second run has ended, so what the first one does inside is compared with itself
      refine .refused hdeepen hS hS' ?_
      have hpasses := (hself l hl (c := c.deepen) rfl hk).passes
      generalize q l c.deepen = x at hpasses ⊢
      cases hpasses with
      | ok hus => exact .ok (c := c) hus
      | error hd => exact .error hd
    · obtain ⟨l', hl', hrun'⟩ := exists_opening_eq (α := α) hinner' hS'
      rw [hrun']
      have hinside := hboth l l' hl hl' (c := c.deepen) rfl hk
      generalize q l c.deepen = x at hinside ⊢
      generalize q l' c.deepen = y at hinside ⊢
      cases hinside with
      | ok hus => exact .ok (c := c) hus
      | error hd he => exact .error (hdeepen.trans hd) he
      | stopped hd hS hS' => exact .stopped (hdeepen.trans hd) hS hS'
      | refused hd hS hS' hx =>
          refine .refused (hdeepen.trans hd) hS hS' ?_
          cases hx with
          | ok hus => exact .ok (c := c) hus
          | error hf => exact .error hf

end Parse

namespace Level

open Parse

variable {guard guard' : Guard} {top top' n : Nat}

theorem around_forks {inner inner' : Option Level}
    (hle : ∀ d, guard.Stops top d → guard'.Stops top' d)
    (hinner : inner = none ↔ top ≤ n) (hinner' : inner' = none ↔ top' ≤ n)
    (hself : ∀ l, inner = some l →
      l.Compares (forking (guard.Stops top) (guard.Stops top) (n + 1)) l)
    (hboth : ∀ l l', inner = some l → inner' = some l' →
      l.Compares (forking (guard.Stops top) (guard'.Stops top') (n + 1)) l') :
    (around (opening guard (n + 1) inner)).Compares
      (forking (guard.Stops top) (guard'.Stops top') n)
      (around (opening guard' (n + 1) inner')) := by
  have hopening {α : Type} {g : α → α} {k : Kind} {q : Level → Parse α}
      (hq : ∀ S S' l l', l.Compares (forking S S' (n + 1)) l' →
        ForksAt S S' (n + 1) g k (q l) (q l')) :
      ForksAt (guard.Stops top) (guard'.Stops top') n g k (opening guard (n + 1) inner q)
        (opening guard' (n + 1) inner' q) :=
    opening_forks hle hinner hinner' (fun l hl ↦ hq _ _ l l (hself l hl))
      fun l l' hl hl' ↦ hq _ _ l l' (hboth l l' hl hl')
  apply around_compares
  · exact fun p k ↦ hopening fun S S' l l' hl ↦ hl.climb p k
  · exact fun k op hop ↦ hopening fun S S' l l' hl ↦ hl.prefixed hop
  · exact fun k ↦ hopening fun S S' l l' hl ↦ hl.blockBody_of_uniform (forking_uniform S S' _) k

/-- Under a guard that refuses more the same is parsed, up to the first level that is refused. -/
theorem nested_forks (hle : ∀ d, guard.Stops top d → guard'.Stops top' d) {room room' : Nat}
    (hroom : n + room = top) (hroom' : n + room' = top') :
    (nested guard room n).Compares (forking (guard.Stops top) (guard'.Stops top') n)
      (nested guard' room' n) := by
  induction room generalizing guard' top' room' n with
  | zero =>
      rw [nested_eq_around, nested_eq_around]
      exact around_forks hle (inside_eq_none_iff hroom) (inside_eq_none_iff hroom') nofun nofun
  | succ room ih =>
      rw [nested_eq_around, nested_eq_around]
      have hnext : n + 1 + room = top := (Nat.succ_add_eq_add_succ n room).trans hroom
      apply around_forks hle (inside_eq_none_iff hroom) (inside_eq_none_iff hroom')
      · rintro l ⟨⟩
        exact ih (fun _ h ↦ h) hnext hnext
      · rintro l l' ⟨⟩ hl'
        cases room' with
        | zero => cases hl'
        | succ room' =>
            obtain rfl := Option.some.inj hl'
            exact ih hle hnext ((Nat.succ_add_eq_add_succ n room').trans hroom')

/-- A program whose statements are parsed at the level `l`. -/
def program (l : Level) : Parse Program := do
  skipNewlines
  let body ← l.statements .eof
  return ⟨body, .start⟩

end Level

theorem Parse.program_eq (c : Cursor) : program c = (Level.ofRoom c.room).program c := by
  have hstatements : here (·.statements .eof) c.skipNewlines =
      (Level.ofRoom c.room).statements .eof c.skipNewlines := rfl
  rw [program, Level.program, bind_of_ok (skipNewlines_eq c), bind_of_ok (skipNewlines_eq c),
    bind_eq, bind_eq, hstatements]

theorem Level.Compares.program {C : Comparison} {l l' : Level} (hl : l.Compares C l')
    (hplace : C.place = id) : C.Same id l.program l'.program := by
  have hstatements := hl.statements .eof
  rw [hplace, Stmt.mapPositions_eq_id, List.map_id_fun] at hstatements
  apply Comparison.same_skipNewlines.bind
  intro _
  apply hstatements.bind
  intro body
  exact Comparison.same_pure _

/-- A run of the whole program. -/
def Guard.run (guard : Guard) (room : Nat) (mode : Mode) (ts : List Token) :
    EStateM.Result Fault Cursor Program :=
  (Level.nested guard room 0).program (Cursor.ofTokens mode ts)

theorem Guard.run_forks {guard guard' : Guard} {room room' : Nat}
    (hle : ∀ d, guard.Stops room d → guard'.Stops room' d) (mode : Mode) (ts : List Token) :
    (Cursor.ofTokens mode ts).Forks (guard.Stops room) (guard'.Stops room') id
      (guard.run room mode ts) (guard'.run room' mode ts) :=
  (Level.nested_forks hle (Nat.zero_add room) (Nat.zero_add room')).program rfl _ rfl rfl

end Offside
