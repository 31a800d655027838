import Offside.Proofs.Grammar.Moved
import Offside.Proofs.Parse.Facing

/-!
# Comparing two runs

Two runs of a parser can be compared in several ways: from the same tokens at other positions, in
the other mode, with other parsers for what is nested too deeply. What all ways have in common is
that the comparison of the parts gives that of the whole. A comparison here is a relation on
parsers that is kept by what parsers are put together from, and then it is kept by each of them.
-/

namespace Offside

/-- Neither a dedent is missing nor a level: these two are not always missing in both runs. -/
def Cause.IsLocal : Cause → Prop
  | .unexpectedToken expected _ => expected ≠ .dedent
  | .nestingTooDeep _ => False
  | _ => True

theorem Cause.IsLocal.expected?_ne {cause : Cause} (h : cause.IsLocal) :
    cause.expected? ≠ some .dedent := by
  cases cause with
  | unexpectedToken expected found => exact fun heq ↦ h (Option.some.inj heq)
  | _ => nofun

theorem Cause.IsLocal.ne_nestingTooDeep {cause : Cause} (h : cause.IsLocal) (limit : Nat) :
    cause ≠ .nestingTooDeep limit := by
  rintro rfl
  exact h

/-- A way to compare a run with another one that finds everything at the positions `place` gives.
The relation is asked for at the kind of the current token, which decides what a parser does. The
result of the second run is then the image of the first one's. -/
structure Comparison where
  place : Position → Position
  Rel {α : Type} : (α → α) → Kind → Parse α → Parse α → Prop
  rel_pure {α : Type} {g : α → α} {k : Kind} (a : α) : Rel g k (pure a) (pure (g a))
  rel_bind {α β : Type} {g : α → α} {h : β → β} {k : Kind} {p p' : Parse α} {f f' : α → Parse β} :
    Rel g k p p' → (∀ a j, Rel h j (f a) (f' (g a))) → Rel h k (p >>= f) (p' >>= f')
  rel_current {β : Type} {h : β → β} {k : Kind} {p q : Token → Parse β} :
    (∀ t, t.kind = k → Rel h k (p t) (q (t.mapPosition place))) →
      Rel h k (Parse.current >>= p) (Parse.current >>= q)
  rel_ahead {β : Type} {h : β → β} {k : Kind} {f f' : List Token → Parse β} :
    (∀ ts us, us.length = ts.length → Rel h k (f ts) (f' us)) →
      Rel h k (get >>= fun c ↦ f c.ahead) (get >>= fun c ↦ f' c.ahead)
  rel_skipNewlines (k : Kind) : Rel id k Parse.skipNewlines Parse.skipNewlines
  rel_advance {k : Kind} : k.rise = 0 → Rel (Token.mapPosition place) k Parse.advance Parse.advance
  rel_throw {α : Type} {g : α → α} {k : Kind} {cause : Cause} {position : Position} :
    cause.IsLocal →
      Rel g k (throw ⟨cause, position⟩) (throw ⟨cause, place position⟩)

namespace Comparison

open Parse

variable (C : Comparison)

/-- The parsers compare at every token. -/
def Same {α : Type} (g : α → α) (p p' : Parse α) : Prop :=
  ∀ k, C.Rel g k p p'

variable {C} {α β γ : Type} {g : α → α} {h : β → β} {k : Kind} {p p' : Parse α}

theorem Same.bind {f f' : α → Parse β} (hp : C.Same g p p') (hf : ∀ a, C.Same h (f a) (f' (g a))) :
    C.Same h (p >>= f) (p' >>= f') :=
  fun k ↦ C.rel_bind (hp k) hf

theorem same_pure (a : α) : C.Same g (pure a) (pure (g a)) :=
  fun _ ↦ C.rel_pure a

theorem same_skipNewlines : C.Same id Parse.skipNewlines Parse.skipNewlines :=
  C.rel_skipNewlines

theorem map {u u' : α → β} (hp : C.Rel g k p p') (hu : ∀ a, u' (g a) = h (u a)) :
    C.Rel h k (u <$> p) (u' <$> p') := by
  rw [map_eq_pure_bind, map_eq_pure_bind]
  refine C.rel_bind hp fun a ↦ ?_
  rw [hu]
  exact same_pure (u a)

protected theorem discard (hp : C.Rel g k p p') : C.Rel id k (discard p) (discard p') :=
  map hp fun _ ↦ rfl

theorem Same.map {u u' : α → β} (hp : C.Same g p p') (hu : ∀ a, u' (g a) = h (u a)) :
    C.Same h (u <$> p) (u' <$> p') :=
  fun k ↦ Comparison.map (hp k) hu

protected theorem Same.discard (hp : C.Same g p p') : C.Same id (discard p) (discard p') :=
  fun k ↦ Comparison.discard (hp k)

theorem kind_bind {f f' : Kind → Parse β} (hf : C.Rel h k (f k) (f' k)) :
    C.Rel h k (kind >>= f) (kind >>= f') := by
  refine C.rel_current (p := fun t ↦ f t.kind) (q := fun t ↦ f' t.kind) ?_
  rintro t rfl
  exact hf

theorem position_bind {f f' : Position → Parse β} (hf : ∀ a, C.Rel h k (f a) (f' (C.place a))) :
    C.Rel h k (position >>= f) (position >>= f') :=
  C.rel_current (p := fun t ↦ f t.position) (q := fun t ↦ f' t.position) fun t _ ↦ hf t.position

theorem same_reject {cause : Cause} (hcause : cause.IsLocal) :
    C.Same g (reject cause) (reject cause) :=
  fun _ ↦ position_bind fun _ ↦ C.rel_throw hcause

theorem same_expect {j : Kind} (hj : j.rise = 0) :
    C.Same (Token.mapPosition C.place) (expect j) (expect j) := by
  intro k
  refine C.rel_current fun t ht ↦ ?_
  by_cases hkind : t.kind = j
  · rw [if_pos hkind, if_pos (Token.kind_moved hkind)]
    exact C.rel_advance (by rw [← ht, hkind, hj])
  · have hkind' : (t.mapPosition C.place).kind ≠ j := hkind
    rw [if_neg hkind, if_neg hkind']
    refine same_reject ?_ k
    rintro rfl
    cases hj

theorem same_identifier : C.Same id identifier identifier :=
  (same_expect (j := .identifier) rfl).bind fun t ↦ same_pure t.lexeme

/-! Repetitions. -/

section

variable {next? : Kind → Option γ} {body body' : α → γ → Parse α}
  (hbody : ∀ a b k, next? k = some b → C.Rel g k (body a b) (body' (g a) b))

include hbody

theorem same_chainWithin {bound bound' : List Token} (hbound : bound'.length = bound.length)
    (a : α) : C.Same g (chainWithin next? body bound a) (chainWithin next? body' bound' (g a)) := by
  induction bound generalizing bound' a with
  | nil =>
      obtain rfl := List.length_eq_zero_iff.mp hbound
      exact same_pure a
  | cons t bound ih =>
      obtain ⟨t', bound', rfl⟩ := List.exists_cons_of_length_eq_add_one hbound
      intro k
      refine kind_bind ?_
      split
      · exact C.rel_pure a
      · next b hb => exact C.rel_bind (hbody a b k hb) fun a ↦ ih (Nat.succ.inj hbound) a

theorem same_chain (a : α) : C.Same g (chain next? body a) (chain next? body' (g a)) :=
  fun _ ↦ C.rel_ahead fun _ _ hlength ↦ same_chainWithin hbody hlength a _

end

theorem same_many {q : Kind → Bool} {item item' : Parse α}
    (hitem : ∀ k, q k → C.Rel g k item item') :
    C.Same (List.map g) (many q item) (many q item') := by
  refine (same_chain (g := List.map g) (fun items _ k hk ↦ ?_) []).bind fun found ↦ ?_
  · exact C.rel_bind (hitem k (by simpa using hk)) fun a ↦ same_pure (a :: items)
  · rw [← List.map_reverse]
    exact same_pure found.reverse

theorem same_after_advance {k : Kind} (hk : k.rise = 0) (hp : C.Same g p p') :
    C.Rel g k (do discard advance; p) (do discard advance; p') :=
  C.rel_bind (Comparison.discard (C.rel_advance hk)) fun _ ↦ hp

theorem same_commaSeparated (hp : C.Same g p p') :
    C.Same (List.map g) (commaSeparated p) (commaSeparated p') := by
  apply hp.bind
  intro first
  have hothers : C.Same (List.map g) (many (· = .mark .comma) (do discard advance; p))
      (many (· = .mark .comma) (do discard advance; p')) := by
    apply same_many
    intro k hk
    obtain rfl : k = .mark .comma := by simpa using hk
    exact same_after_advance rfl hp
  apply hothers.bind
  intro others
  exact same_pure (first :: others)

theorem same_listUntil (close : Kind) (hp : C.Same g p p') :
    C.Same (List.map g) (listUntil close p) (listUntil close p') := by
  intro k
  refine kind_bind ?_
  split
  · exact C.rel_pure []
  · exact same_commaSeparated hp k

theorem same_after? {j : Kind} (hj : j.rise = 0) (hp : C.Same g p p') :
    C.Same (Option.map g) (after? j p) (after? j p') := by
  intro k
  refine kind_bind ?_
  split
  · next hk =>
      obtain rfl := hk
      refine same_after_advance hj ?_
      exact hp.bind fun a ↦ same_pure (some a)
  · exact C.rel_pure none

/-- Nothing is left to the comparison at hand: dedents are as good as other tokens, and what is
parsed in both modes compares in each. -/
structure Uniform (C : Comparison) : Prop where
  advance (k : Kind) : C.Rel (Token.mapPosition C.place) k Parse.advance Parse.advance
  throw {α : Type} {g : α → α} {k : Kind} {cause : Cause} {position : Position} :
    (∀ limit, cause ≠ .nestingTooDeep limit) →
      C.Rel g k (throw ⟨cause, position⟩) (throw ⟨cause, C.place position⟩)
  mode {β : Type} {h : β → β} {k : Kind} {f f' : Mode → Parse β} :
    (∀ m, C.Rel h k (f m) (f' m)) →
      C.Rel h k (get >>= fun c ↦ f c.mode) (get >>= fun c ↦ f' c.mode)

theorem Uniform.same_expect (hC : C.Uniform) (j : Kind) :
    C.Same (Token.mapPosition C.place) (expect j) (expect j) := by
  intro k
  apply C.rel_current
  intro t _
  rw [Token.kind_mapPosition]
  split
  · exact hC.advance k
  · exact position_bind fun _ ↦ hC.throw nofun

end Comparison
end Offside
