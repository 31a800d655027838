import Offside.Proofs.Parse.Guard

/-!
# Levels and tokens

A token that is read pays for the level that is opened behind it. Two levels may be opened at one
token, that of an expression and that of an operator in front of it, but what lies deeper is behind
a token. So the levels that are open where a run fails are no more than the tokens it has read and
two.
-/

namespace Offside

/-- Nothing is found for the kind of an end mark. -/
theorem Kind.ne_eof_of_eq_some {γ : Type} {g : Kind → Option γ} (heof : g .eof = none) {k : Kind}
    {b : γ} (h : g k = some b) : k ≠ .eof := by
  rintro rfl
  rw [heof] at h
  cases h

/-- A run from `c` that fails has opened no more than `m` levels beyond the tokens it has read. -/
inductive Cursor.Spends {α : Type} (m : Nat) (c : Cursor) :
    EStateM.Result Fault Cursor α → Prop
  | ok {a : α} {us : List Token} (h : us <:+ c.ahead) : Spends m c (.ok a (c.facing us))
  | error {e : Fault} {d : Cursor}
      (h : d.depth + d.ahead.length ≤ c.depth + c.ahead.length + m) : Spends m c (.error e d)

/-- From `c` on, where more tokens are ahead, as many more levels can be opened. -/
theorem Cursor.Spends.mono {α : Type} {m n : Nat} {c : Cursor} {us : List Token}
    {x : EStateM.Result Fault Cursor α} (h : (c.facing us).Spends m x) (hus : us <:+ c.ahead)
    (hle : us.length + m ≤ c.ahead.length + n) : c.Spends n x := by
  cases h with
  | ok hvs => exact .ok (hvs.trans hus)
  | error h =>
      refine .error (h.trans ?_)
      rw [depth_facing, ahead_facing, Nat.add_assoc, Nat.add_assoc]
      exact Nat.add_le_add_left hle _

namespace Parse

variable {α β : Type} {m : Nat} {k : Kind} {p : Parse α}

/-- The runs of `p` spend no more than `m`, from cursors at a token of kind `k`. -/
def SpendsAt (m : Nat) (k : Kind) (p : Parse α) : Prop :=
  ∀ ⦃c : Cursor⦄, c.stop.kind = .eof → c.current.kind = k → c.Spends m (p c)

theorem SpendsAt.mono {n : Nat} (hp : SpendsAt m k p) (hle : m ≤ n) : SpendsAt n k p :=
  fun c hc hk ↦ (hp hc hk : (c.facing c.ahead).Spends m (p c)).mono List.suffix_rfl
    (Nat.add_le_add_left hle _)

theorem SpendsAt.bind {q : α → Parse β} (hp : SpendsAt m k p) (hq : ∀ a j, SpendsAt m j (q a)) :
    SpendsAt m k (p >>= q) := by
  intro c hc hk
  have hrun := hp hc hk
  rw [bind_eq]
  generalize p c = x at hrun ⊢
  cases hrun with
  | @ok a us hus =>
      have hrest := hq a _ (c := c.facing us) hc rfl
      exact hrest.mono hus (Nat.add_le_add_right hus.length_le m)
  | error h => exact .error h

theorem throw_spends (e : Fault) : SpendsAt m k (throw e : Parse α) :=
  fun _ _ _ ↦ .error (Nat.le_add_right ..)

theorem advance_spends : SpendsAt m k advance := by
  intro c _ _
  obtain ⟨us, hus, hd⟩ := c.exists_advance_eq_facing
  rw [advance_eq, hd]
  exact .ok hus

/-- A token that is read pays for a level. -/
theorem advance_bind_spends {q : Token → Parse β} (hk : k ≠ .eof)
    (hq : ∀ t j, SpendsAt (m + 1) j (q t)) : SpendsAt m k (advance >>= q) := by
  intro c hc hkind
  obtain ⟨t, us, hahead, -⟩ : ∃ t us, c.ahead = t :: us ∧ t.kind = k := by
    rw [← Cursor.facing_ahead_self c, Cursor.kind_current_facing c.ahead hc] at hkind
    exact exists_cons_of_firstKind hkind hk
  have hrun : (advance >>= q) c = q t (c.facing us) := by
    rw [← Cursor.facing_ahead_self c, hahead]
    rfl
  have hrest := hq t _ (c := c.facing us) hc rfl
  rw [hrun]
  refine hrest.mono ?_ ?_
  · rw [hahead]
    exact List.suffix_cons t us
  · rw [hahead, List.length_cons]
    omega

theorem discard_advance_bind_spends {q : Unit → Parse β} (hk : k ≠ .eof)
    (hq : ∀ j, SpendsAt (m + 1) j (q ())) : SpendsAt m k (discard advance >>= q) := by
  rw [discard_bind]
  exact advance_bind_spends hk fun _ ↦ hq

theorem current_bind_spends {q : Token → Parse β} (hq : ∀ t, SpendsAt m k (q t)) :
    SpendsAt m k (current >>= q) :=
  fun c hc hk ↦ hq c.current hc hk

theorem position_bind_spends {q : Position → Parse β} (hq : ∀ a, SpendsAt m k (q a)) :
    SpendsAt m k (position >>= q) :=
  fun c hc hk ↦ hq c.current.position hc hk

theorem kind_bind_spends {q : Kind → Parse β} (hq : SpendsAt m k (q k)) :
    SpendsAt m k (kind >>= q) := by
  rintro c hc rfl
  exact hq hc rfl

end Parse

/-- The runs that spend no more than `m`. What they are compared with does not matter. -/
def spending (m : Nat) : Comparison where
  place := id
  Rel _ k p _ := Parse.SpendsAt m k p
  rel_pure _ _ _ _ := .ok List.suffix_rfl
  rel_bind hp hf := hp.bind hf
  rel_current hf c hc hk := hf c.current hk hc hk
  rel_ahead hf c hc hk := hf c.ahead c.ahead rfl hc hk
  rel_skipNewlines _ _ _ _ := .ok (List.dropWhile_suffix _)
  rel_advance _ := Parse.advance_spends
  rel_throw _ := Parse.throw_spends _

theorem spending_uniform (m : Nat) : (spending m).Uniform where
  advance _ := Parse.advance_spends
  throw _ := Parse.throw_spends _
  mode hf c hc hk := hf c.mode hc hk

namespace Parse

variable {α β : Type} {m : Nat} {k : Kind} {p : Parse α}

/-- The runs of `p` spend no more than `m`. -/
def Frugal (m : Nat) (p : Parse α) : Prop :=
  ∀ k, SpendsAt m k p

theorem Frugal.of_same {g : α → α} {p' : Parse α} (h : (spending m).Same g p p') : Frugal m p := h

theorem Frugal.same (h : Frugal m p) (g : α → α) (p' : Parse α) : (spending m).Same g p p' := h

theorem Frugal.bind {q : α → Parse β} (hp : Frugal m p) (hq : ∀ a, Frugal m (q a)) :
    Frugal m (p >>= q) :=
  fun k ↦ (hp k).bind hq

theorem pure_frugal (a : α) : Frugal m (pure a) :=
  fun _ _ _ _ ↦ .ok List.suffix_rfl

theorem expect_frugal (j : Kind) : Frugal m (expect j) :=
  .of_same ((spending_uniform m).same_expect j)

theorem discard_expect_frugal (j : Kind) : Frugal m (discard (expect j)) :=
  .of_same ((expect_frugal j).same id (expect j)).discard

/-- A token that is expected and found pays for a level. -/
theorem expect_bind_frugal {q : Token → Parse β} {j : Kind} (hj : j ≠ .eof)
    (hq : ∀ t, Frugal (m + 1) (q t)) : Frugal m (expect j >>= q) := by
  intro k c hc hk
  by_cases hfound : c.current.kind = j
  · have hrun : (expect j >>= q) c = (advance >>= q) c := by
      rw [bind_eq, expect_eq, if_pos hfound, bind_eq, advance_eq]
    rw [hrun]
    exact advance_bind_spends hj hq hc hfound
  · rw [bind_eq, expect_eq, if_neg hfound]
    exact .error (Nat.le_add_right ..)

theorem chain_frugal {next? : Kind → Option β} {body : α → β → Parse α}
    (hbody : ∀ a b k, next? k = some b → SpendsAt m k (body a b)) (a : α) :
    Frugal m (chain next? body a) := by
  have hround : ∀ a b k, next? k = some b →
      (spending m).Rel id k (body a b) (body (id a) b) := hbody
  exact .of_same (Comparison.same_chain hround a)

section

variable {e : Parse Expr} (he : Frugal 2 e)

include he

theorem group_frugal : Frugal 1 (group e) := by
  rw [group, discard_bind]
  -- the parenthesis pays for one of the two levels that the expression may open at once
  refine expect_bind_frugal nofun fun _ ↦ ?_
  apply he.bind
  intro inner
  exact (discard_expect_frugal _).bind fun _ ↦ pure_frugal inner

theorem listUntil_frugal (close : Kind) : Frugal 2 (listUntil close e) :=
  .of_same (Comparison.same_listUntil close (he.same id e))

theorem array_frugal : Frugal 1 (array e) := by
  refine expect_bind_frugal nofun fun start ↦ ?_
  apply (listUntil_frugal he _).bind
  intro elements
  exact (discard_expect_frugal _).bind fun _ ↦ pure_frugal _

theorem atom_frugal : Frugal 1 (atom e) := by
  intro k
  apply current_bind_spends
  intro token
  split
  · exact Comparison.rel_primary (C := spending 1) advance_spends
  · exact group_frugal he k
  · exact array_frugal he k
  · exact fun c _ _ ↦ .error (Nat.le_add_right ..)

theorem suffix_spends (callee : Expr) {form : Suffix} (hk : k.suffix? = some form) :
    SpendsAt 1 k (suffix e callee form) := by
  apply discard_advance_bind_spends (Kind.ne_eof_of_eq_some (g := Kind.suffix?) rfl hk)
  cases form with
  | call =>
      apply (listUntil_frugal he _).bind
      intro arguments
      exact (discard_expect_frugal _).bind fun _ ↦ pure_frugal _
  | subscript =>
      apply he.bind
      intro index
      exact (discard_expect_frugal _).bind fun _ ↦ pure_frugal _
  | member =>
      have hname : Frugal 2 identifier := .of_same Comparison.same_identifier
      exact hname.bind fun name ↦ pure_frugal _

theorem suffixed_frugal : Frugal 1 (suffixed e) := by
  apply (atom_frugal he).bind
  intro callee
  exact chain_frugal (fun callee form k hk ↦ suffix_spends he callee hk) callee

end

end Parse

namespace Level

open Parse

/-- What the parsers of a level spend. An expression opens two levels at most before it reads a
token, its own and that of an operator in front; an operand opens one. -/
structure Thrifty (l : Level) : Prop where
  expr : ∀ p, Frugal 2 (l.expr p)
  operand : Frugal 1 l.operand
  block : Frugal 2 l.block

variable {l : Level}

theorem Thrifty.compares (hl : l.Thrifty) : l.Compares (spending 2) l where
  expr := hl.expr
  operand k := (hl.operand k).mono (Nat.le_succ 1)
  block := hl.block

namespace Thrifty

variable (hl : l.Thrifty)

include hl

theorem climb (p : Precedence) : Frugal 1 (l.climb p) := by
  apply hl.operand.bind
  intro first
  apply chain_frugal
  intro left op k hk
  apply discard_advance_bind_spends (Kind.ne_eof_of_eq_some (g := Kind.binaryOpAbove? p) rfl hk)
  exact (hl.expr _).bind fun right ↦ pure_frugal _

theorem prefixed {k : Kind} {op : UnaryOp} (hk : k.unaryOp? = some op) :
    SpendsAt 0 k (l.prefixed op) := by
  apply advance_bind_spends (Kind.ne_eof_of_eq_some (g := Kind.unaryOp?) rfl hk)
  intro token
  exact hl.operand.bind fun e ↦ pure_frugal _

theorem statements (close : Kind) : Frugal 2 (l.statements close) :=
  .of_same (hl.compares.statements close)

theorem braced : SpendsAt 1 (.mark .openCurly) l.braced := by
  have hskip : Frugal 2 skipNewlines := .of_same Comparison.same_skipNewlines
  refine discard_advance_bind_spends nofun ?_
  apply hskip.bind
  intro _
  apply (hl.statements _).bind
  intro body
  apply (discard_expect_frugal _).bind
  intro _
  exact hskip.bind fun _ ↦ pure_frugal body

theorem indented : Frugal 1 l.indented := by
  rw [indented_eq]
  refine expect_bind_frugal nofun fun _ ↦ ?_
  apply (hl.statements .dedent).bind
  intro ss
  exact .of_same (same_closing (spending_uniform 2) ss)

theorem blockBody : Frugal 1 l.blockBody := by
  intro k
  apply position_bind_spends
  intro position
  apply kind_bind_spends
  split
  · next hopen => exact SpendsAt.bind (hopen ▸ hl.braced) fun body ↦ pure_frugal _
  · exact (hl.indented k).bind fun body ↦ pure_frugal _

end Thrifty

section

variable {guard : Guard} {n : Nat} {inner : Option Level}

theorem opening_spends {α : Type} {m : Nat} {k : Kind} {q : Level → Parse α}
    (hq : ∀ l, inner = some l → SpendsAt m k (q l)) :
    SpendsAt (m + 1) k (opening guard n inner q) := by
  intro c hc hk
  have hdeepen : c.deepen.depth + c.ahead.length ≤ c.depth + c.ahead.length + (m + 1) := by
    rw [Cursor.depth_deepen]
    omega
  cases hguard : guard n c.deepen with
  | true =>
      rw [opening_of_refused hguard]
      exact .error hdeepen
  | false =>
      cases inner with
      | none =>
          rw [opening_none]
          exact .error hdeepen
      | some l =>
          have hrun := hq l rfl (c := c.deepen) hc hk
          rw [opening_some hguard]
          generalize q l c.deepen = x at hrun ⊢
          cases hrun with
          | ok hus => exact .ok (c := c) hus
          | error h =>
              refine .error (h.trans ?_)
              show c.depth + 1 + c.ahead.length + m ≤ c.depth + c.ahead.length + (m + 1)
              omega

theorem around_thrifty (hinner : ∀ l, inner = some l → l.Thrifty) :
    (around (opening guard n inner)).Thrifty := by
  have hexpr (p : Precedence) : Frugal 2 ((around (opening guard n inner)).expr p) :=
    fun k ↦ opening_spends fun l hl ↦ (hinner l hl).climb p k
  constructor
  · exact hexpr
  · intro k
    apply kind_bind_spends
    split
    · next op hop => exact opening_spends fun l hl ↦ (hinner l hl).prefixed hop
    · exact suffixed_frugal (hexpr .lowest) k
  · exact fun k ↦ opening_spends fun l hl ↦ (hinner l hl).blockBody k

theorem nested_thrifty (guard : Guard) (room n : Nat) : (nested guard room n).Thrifty := by
  induction room generalizing n with
  | zero => exact around_thrifty nofun
  | succ room ih =>
      apply around_thrifty
      rintro l ⟨⟩
      exact ih (n + 1)

end

end Level
end Offside
