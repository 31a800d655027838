import Offside.Proofs.Parse.Sound

/-!
# What parsers need

A parser that reads something needs to open levels for it. With enough room for them it comes out
with the result, and with less it fails for want of levels and for no other reason.
-/

namespace Offside

variable {α β : Type}

/-- A run `x` comes out as `y` with room for `n` levels, and fails with less than that. -/
structure Needs (limit r n : Nat) (x y : EStateM.Result Fault Cursor α) : Prop where
  eq : n ≤ r → x = y
  fails : r < n → ∃ f d, x = .error f d ∧ f.cause = .nestingTooDeep limit

namespace Needs

variable {limit r n m : Nat} {x y z : EStateM.Result Fault Cursor α}

theorem refl (x : EStateM.Result Fault Cursor α) : Needs limit r 0 x x where
  eq _ := rfl
  fails h := absurd h (Nat.not_lt_zero r)

theorem trans (h : Needs limit r n x y) (h' : Needs limit r m y z) :
    Needs limit r (max n m) x z where
  eq hle := by
    have hle := Nat.max_le.mp hle
    exact (h.eq hle.1).trans (h'.eq hle.2)
  fails hlt := by
    by_cases hn : n ≤ r
    · rw [h.eq hn]
      exact h'.fails (by omega)
    · exact h.fails (Nat.not_le.mp hn)

theorem bind {p : Parse α} {c d : Cursor} {a : α} (h : Needs limit r n (p c) (.ok a d))
    (f : α → Parse β) : Needs limit r n ((p >>= f) c) (f a d) where
  eq hle := Parse.bind_of_ok (h.eq hle)
  fails hlt := by
    obtain ⟨fault, e, herror, hcause⟩ := h.fails hlt
    exact ⟨fault, e, Parse.bind_of_error herror, hcause⟩

theorem bind_eq {p : Parse α} {f : α → Parse β} {c d : Cursor} {a : α}
    {y : EStateM.Result Fault Cursor β} (h : Needs limit r n (p c) (.ok a d)) (hf : f a d = y) :
    Needs limit r n ((p >>= f) c) y :=
  hf ▸ h.bind f

theorem bind_trans {p : Parse α} {f : α → Parse β} {c d : Cursor} {a : α}
    {y : EStateM.Result Fault Cursor β} (h : Needs limit r n (p c) (.ok a d))
    (hf : Needs limit r m (f a d) y) : Needs limit r (max n m) ((p >>= f) c) y :=
  (h.bind f).trans hf

end Needs

/-- Cursors at which `r` levels can be opened. -/
def Cursor.Fits (c : Cursor) (r : Nat) : Prop :=
  c.stop.kind = .eof ∧ c.depth + r ≤ c.limit

theorem Cursor.Fits.deepen {c : Cursor} {r : Nat} (hc : c.Fits (r + 1)) : c.deepen.Fits r := by
  refine ⟨hc.1, ?_⟩
  have hroom := hc.2
  rw [depth_deepen, limit_deepen]
  omega

namespace Level

/-- What a level with room for `r` more holds for the next one. -/
def inner? : Nat → Option Level
  | 0 => none
  | r + 1 => some (ofRoom r)

theorem ofRoom_eq (r : Nat) : ofRoom r = above (inner? r) := by
  cases r <;> rfl

end Level

namespace Parse

/-- Opening a level takes one more than what is opened inside. -/
theorem entering_needs {p : Level → Parse α} {c : Cursor} {r n : Nat} {ts us : List Token} {a : α}
    (hc : c.Fits r) (h : ∀ k, r = k + 1 → Needs c.limit k n
      (p (Level.ofRoom k) (c.deepen.facing ts)) (.ok a (c.deepen.facing us))) :
    Needs c.limit r (n + 1) (entering (Level.inner? r) p (c.facing ts)) (.ok a (c.facing us)) := by
  cases r with
  | zero =>
      refine ⟨fun hle ↦ absurd hle (Nat.not_succ_le_zero n), fun _ ↦ ?_⟩
      exact ⟨_, _, entering_none p _, rfl⟩
  | succ r =>
      have hroom : c.depth < c.limit := by
        have := hc.2
        omega
      have hinner := h r rfl
      rw [Level.inner?, entering_facing _ p ts hroom]
      refine ⟨fun hle ↦ ?_, fun hlt ↦ ?_⟩
      · rw [hinner.eq (Nat.le_of_succ_le_succ hle)]
        rfl
      · obtain ⟨f, d, herror, hcause⟩ := hinner.fails (Nat.lt_of_succ_lt_succ hlt)
        rw [herror]
        exact ⟨f, d, rfl, hcause⟩

/-! Repetitions. -/

/-- Goes on as long as `q` holds. -/
def while? (q : Kind → Bool) (k : Kind) : Option Unit :=
  if q k then some () else none

/-- One more item on top of those found before. -/
def oneMore (item : Parse α) (found : List α) (_ : Unit) : Parse (List α) := do
  let a ← item
  return a :: found

theorem many_eq (q : Kind → Bool) (item : Parse α) :
    many q item = List.reverse <$> chain (while? q) (oneMore item) [] := by
  rw [map_eq_pure_bind]
  rfl

theorem chainWithin_cons {next? : Kind → Option β} {body : α → β → Parse α} (t : Token)
    (bound : List Token) (a : α) : chainWithin next? body (t :: bound) a = (do
      match next? (← kind) with
      | none => return a
      | some b => chainWithin next? body bound (← body a b)) := rfl

/-- Items that were found before stay below the others. -/
theorem chainWithin_append (q : Kind → Bool) (item : Parse α) (bound : List Token)
    (as found : List α) : chainWithin (while? q) (oneMore item) bound (as ++ found) =
      (· ++ found) <$> chainWithin (while? q) (oneMore item) bound as := by
  induction bound generalizing as with
  | nil => rfl
  | cons t bound ih =>
      rw [chainWithin_cons, chainWithin_cons, map_eq_pure_bind, bind_assoc]
      apply bind_congr
      intro k
      cases while? q k with
      | none => rfl
      | some b =>
          simp only [oneMore, bind_assoc, pure_bind]
          apply bind_congr
          intro a
          rw [← map_eq_pure_bind]
          exact ih (a :: as)

section

variable {c : Cursor} (hc : c.stop.kind = .eof)

/-- Whatever `p` reads, where it is asked to, takes a token. -/
def Advances (q : Kind → Bool) (p : Parse α) (c : Cursor) : Prop :=
  ∀ ⦃ts a d⦄, q (firstKind ts) = true → p (c.facing ts) = .ok a d →
    ∃ us, d = c.facing us ∧ us.length < ts.length

theorem Advances.progresses {q : Kind → Bool} {item : Parse α} (h : Advances q item c) :
    Progresses (while? q) (oneMore item) c := by
  intro found b ts as d hnext hround
  have hfirst : q (firstKind ts) = true := by
    by_contra hfalse
    simp [while?, hfalse] at hnext
  obtain ⟨a, e, hitem, hround⟩ := exists_of_bind_eq_ok hround
  obtain ⟨us, rfl, hlt⟩ := h hfirst hitem
  obtain ⟨-, rfl⟩ := eq_of_pure_eq_ok hround
  exact ⟨us, rfl, hlt⟩

theorem Advances.behind {k : Kind} {p : Parse α} (hp : Advances (fun _ ↦ true) p c)
    (hk : k ≠ .eof) : Advances (· = k) (do discard advance; p) c := by
  intro ts a d hfirst h
  obtain ⟨t, us, rfl, -⟩ := exists_cons_of_firstKind (of_decide_eq_true hfirst) hk
  rw [discard_bind, advance_bind_cons] at h
  obtain ⟨vs, rfl, hlt⟩ := hp rfl h
  exact ⟨vs, rfl, Nat.lt_succ_of_lt hlt⟩

include hc

theorem many_of_false {q : Kind → Bool} {ts : List Token} (h : q (firstKind ts) = false)
    (item : Parse α) : many q item (c.facing ts) = .ok [] (c.facing ts) :=
  bind_of_ok (chain_of_none hc (by simp [h]) [])

/-- Where an item can be read, it is read and then the others. -/
theorem many_of_true {q : Kind → Bool} {ts : List Token} {item : Parse α} (hq : q .eof = false)
    (hitem : Advances q item c) (h : q (firstKind ts) = true) :
    many q item (c.facing ts) =
      (item >>= fun a ↦ (a :: ·) <$> many q item) (c.facing ts) := by
  have hround := chain_of_some hc (by simp [while?, hq]) hitem.progresses
    (show while? q (firstKind ts) = some () by rw [while?, if_pos h]) []
  rw [many_eq, map_eq, hround]
  cases hfirst : item (c.facing ts) with
  | error f d =>
      have hmore : oneMore item [] () (c.facing ts) = .error f d := bind_of_error hfirst
      rw [bind_of_error hfirst, bind_of_error hmore]
  | ok a d =>
      have hmore : oneMore item [] () (c.facing ts) = .ok [a] d := bind_of_ok hfirst
      have hbelow : chain (while? q) (oneMore item) [a] d =
          ((· ++ [a]) <$> chain (while? q) (oneMore item) []) d :=
        congrFun (chainWithin_append q item d.ahead [] [a]) d
      rw [bind_of_ok hfirst, bind_of_ok hmore, hbelow, map_eq, map_eq, map_eq]
      cases chain (while? q) (oneMore item) [] d with
      | error f e => rfl
      | ok found e => simp

end

theorem Sound.advances {mode : Mode} {p : Parse α} {S : Reading α} {r : Nat} {c : Cursor}
    (hp : Sound mode p S r) (hS : S.Consumes) (hc : c.Proper mode) (q : Kind → Bool) :
    Advances q p c := by
  intro ts a d _ h
  obtain ⟨n, us, -, hread, hd⟩ := hp hc h
  exact ⟨us, hd, hS hread⟩

/-- One item or more, with a token of kind `k` between them. -/
def separatedBy (k : Kind) (p : Parse α) : Parse (List α) := do
  let first ← p
  let others ← many (· = k) do
    discard advance
    p
  return first :: others

section

variable {c : Cursor} {r n m : Nat} {k : Kind} {p : Parse α} {ts us vs : List Token} {t : Token}
  {a : α} {as : List α} (hc : c.stop.kind = .eof)

include hc

theorem after?_of_eq (ht : t.kind = k) (us : List Token) :
    after? k p (c.facing (t :: us)) = (some <$> p) (c.facing us) := by
  rw [after?, kind_bind hc, firstKind_cons, if_pos ht, discard_bind, advance_bind_cons,
    map_eq_pure_bind]

theorem after?_of_ne (hts : firstKind ts ≠ k) :
    after? k p (c.facing ts) = .ok none (c.facing ts) := by
  rw [after?, kind_bind hc, if_neg hts]
  rfl

theorem separatedBy_last (ha : Needs c.limit r n (p (c.facing ts)) (.ok a (c.facing us)))
    (hus : firstKind us ≠ k) :
    Needs c.limit r n (separatedBy k p (c.facing ts)) (.ok [a] (c.facing us)) := by
  have hnone : many (· = k) (do discard advance; p) (c.facing us) = .ok [] (c.facing us) :=
    many_of_false hc (decide_eq_false hus) _
  have hrest := ha.bind fun first ↦ do
    let others ← many (· = k) (do discard advance; p)
    return first :: others
  rwa [bind_of_ok hnone] at hrest

/-- What follows a separator is separated in the same way. -/
theorem many_after (hp : Advances (fun _ ↦ true) p c) (hk : k ≠ .eof) (ht : t.kind = k)
    (us : List Token) :
    many (· = k) (do discard advance; p) (c.facing (t :: us)) =
      separatedBy k p (c.facing us) := by
  have hround := many_of_true hc (decide_eq_false hk.symm) (hp.behind hk)
    (decide_eq_true (show firstKind (t :: us) = k from ht))
  rw [hround, bind_assoc, discard_bind, advance_bind_cons, separatedBy]
  simp only [discard_bind, map_eq_pure_bind]

theorem separatedBy_more (hp : Advances (fun _ ↦ true) p c) (hk : k ≠ .eof)
    (ha : Needs c.limit r n (p (c.facing ts)) (.ok a (c.facing (t :: us)))) (ht : t.kind = k)
    (has : Needs c.limit r m (separatedBy k p (c.facing us)) (.ok as (c.facing vs))) :
    Needs c.limit r (max n m) (separatedBy k p (c.facing ts)) (.ok (a :: as) (c.facing vs)) := by
  refine (ha.bind _).trans ?_
  rw [← many_after hc hp hk ht] at has
  exact has.bind _

/-! The readings of optional and repeated parts. -/

variable {S : Reading α} {F : List Token → Prop}

theorem optionally_needs {o : Option α} (h : Optionally k S o n ts us)
    (hS : ∀ a ts', o = some a → S a n ts' us →
      Needs c.limit r n (p (c.facing ts')) (.ok a (c.facing us)))
    (hnone : o = none → firstKind us ≠ k) :
    Needs c.limit r n (after? k p (c.facing ts)) (.ok o (c.facing us)) := by
  cases h with
  | none =>
      rw [after?_of_ne hc (hnone rfl)]
      exact Needs.refl _
  | some hkind hpart =>
      rw [after?_of_eq hc hkind, map_eq_pure_bind]
      exact (hS _ _ rfl hpart).bind _

theorem separated_needs (hp : Advances (fun _ ↦ true) p c)
    (hS : ∀ a n ts us, S a n ts us → F us →
      Needs c.limit r n (p (c.facing ts)) (.ok a (c.facing us)))
    (hF : ∀ t us, t.kind = .mark .comma → F (t :: us)) (h : Separated S as n ts us) (hus : F us)
    (hend : firstKind us ≠ .mark .comma) :
    Needs c.limit r n (commaSeparated p (c.facing ts)) (.ok as (c.facing us)) := by
  induction h with
  | last hpart => exact separatedBy_last hc (hS _ _ _ _ hpart hus) hend
  | more hpart hcomma _ ih =>
      have hfirst := hS _ _ _ _ hpart (hF _ _ hcomma)
      exact separatedBy_more hc hp (by decide) hfirst hcomma (ih hus hend)

theorem listed_needs {close : Kind} (hp : Advances (fun _ ↦ true) p c)
    (hS : ∀ a n ts us, S a n ts us → F us →
      Needs c.limit r n (p (c.facing ts)) (.ok a (c.facing us)))
    (hF : ∀ t us, t.kind = .mark .comma → F (t :: us)) (h : Listed S as n ts us) (hus : F us)
    (hstart : ∀ as n ts us, Separated S as n ts us → firstKind ts ≠ close)
    (hclose : firstKind us = close) (hcomma : close ≠ .mark .comma) :
    Needs c.limit r n (listUntil close p (c.facing ts)) (.ok as (c.facing us)) := by
  rw [listUntil, kind_bind hc]
  cases h with
  | none =>
      rw [if_pos hclose]
      exact Needs.refl _
  | some hparts =>
      rw [if_neg (hstart _ _ _ _ hparts)]
      exact separated_needs hc hp hS hF hparts hus (hclose ▸ hcomma)

end

end Parse
end Offside
