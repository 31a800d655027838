import Offside.Proofs.Parse.Needs

/-!
# Runs that can be completed

A parser decides by the current token alone. So it comes out in the same way from all tokens that
go on alike as far as it has read, up to the token that it stops at. And as long as one more level
can be opened, what it has read can be completed: some tokens behind it make the parser succeed.
Running one parser after another preserves this.
-/

namespace Offside

/-- What was found where something else had to stand. -/
def Cause.found? : Cause → Option String
  | .unexpectedToken _ found | .expectedExpression found => some found
  | _ => none

/-- The fault says that the token cannot stand where it stands. -/
def Fault.Names (f : Fault) (t : Token) : Prop :=
  f.cause.found? = some t.describe ∧ f.position = t.position

namespace Cursor

/-- Exactly `r` more levels can be opened. -/
structure HasRoom (c : Cursor) (r : Nat) : Prop where
  stop : c.stop.kind = .eof
  depth : c.depth + r = c.limit

/-- Cursors that differ only in their tokens. -/
structure Twin (c c' : Cursor) : Prop where
  stop : c'.stop.kind = .eof
  depth : c'.depth = c.depth
  limit : c'.limit = c.limit
  mode : c'.mode = c.mode

/-- The same token is the next one in `us` and in `vs`. -/
structure SameNext (c : Cursor) (us : List Token) (c' : Cursor) (vs : List Token) : Prop where
  head : us.head? = vs.head?
  stop : us = [] → c'.stop = c.stop

/-- Where a run from `c` stops that has left `us`. -/
structure Within (d c : Cursor) (us : List Token) : Prop where
  ahead : d.ahead = us
  stop : d.stop = c.stop
  limit : d.limit = c.limit
  depth : c.depth ≤ d.depth

variable {c c' d : Cursor} {r : Nat} {ts us vs : List Token}

theorem HasRoom.deepen (hc : c.HasRoom (r + 1)) : c.deepen.HasRoom r := by
  refine ⟨hc.stop, ?_⟩
  rw [depth_deepen, limit_deepen, ← hc.depth]
  omega

theorem HasRoom.twin (hc : c.HasRoom r) (h : c.Twin c') : c'.HasRoom r := by
  refine ⟨h.stop, ?_⟩
  rw [h.depth, h.limit, hc.depth]

theorem Twin.deepen (h : c.Twin c') : c.deepen.Twin c'.deepen :=
  ⟨h.stop, congrArg (· + 1) h.depth, h.limit, h.mode⟩

theorem Twin.refl (hc : c.stop.kind = .eof) : c.Twin c :=
  ⟨hc, rfl, rfl, rfl⟩

theorem SameNext.append (h : c.SameNext us c' vs) (ts : List Token) :
    c.SameNext (ts ++ us) c' (ts ++ vs) := by
  cases ts with
  | nil => exact h
  | cons t ts => exact ⟨rfl, nofun⟩

/-- Behind what has been read anything may follow. -/
theorem SameNext.of_ne_nil (c : Cursor) (hts : ts ≠ []) (us vs : List Token) :
    c.SameNext (ts ++ us) c (ts ++ vs) := by
  cases ts with
  | nil => exact absurd rfl hts
  | cons t ts => exact ⟨rfl, fun _ ↦ rfl⟩

theorem SameNext.current (h : c.SameNext us c' vs) :
    (c'.facing vs).current = (c.facing us).current := by
  obtain ⟨hhead, hstop⟩ := h
  cases us with
  | nil =>
      cases vs with
      | nil => exact hstop rfl
      | cons v vs => cases hhead
  | cons u us =>
      cases vs with
      | nil => cases hhead
      | cons v vs => exact (Option.some.inj hhead).symm

theorem SameNext.firstKind_eq (h : c.SameNext us c' vs) : firstKind vs = firstKind us := by
  obtain ⟨hhead, -⟩ := h
  cases us with
  | nil =>
      cases vs with
      | nil => rfl
      | cons v vs => cases hhead
  | cons u us =>
      cases vs with
      | nil => cases hhead
      | cons v vs =>
          obtain rfl := Option.some.inj hhead
          rfl

theorem Within.refl (c : Cursor) (us : List Token) : (c.facing us).Within c us :=
  ⟨rfl, rfl, rfl, Nat.le_refl _⟩

theorem Within.current (h : d.Within c us) : d.current = (c.facing us).current := by
  rw [Cursor.current, h.ahead, h.stop]
  rfl

/-- If one more level can be opened where the run stops, then also where it started. -/
theorem Within.room_pos (h : d.Within c us) (hc : c.HasRoom r) (hroom : d.depth < d.limit) :
    0 < r := by
  have hdepth := h.depth
  have hlimit := h.limit
  have hc := hc.depth
  omega

theorem Within.of_deepen (h : d.Within c.deepen us) : d.Within c us :=
  ⟨h.ahead, h.stop, h.limit, Nat.le_of_succ_le h.depth⟩

end Cursor

/-- Tokens of these kinds. -/
def tokensOf (ks : List Kind) : List Token :=
  ks.map (Token.layout · .start)

theorem tokensOf_append (ks js : List Kind) : tokensOf (ks ++ js) = tokensOf ks ++ tokensOf js :=
  List.map_append

/-- `G` holds of the first kind, or of all that `F` allows if there is none. -/
inductive Opens (G F : Kind → Prop) : List Kind → Prop
  | nil (h : ∀ k, F k → G k) : Opens G F []
  | cons {k : Kind} {ks : List Kind} (h : G k) : Opens G F (k :: ks)

theorem Opens.firstKind {G F : Kind → Prop} {ks : List Kind} (h : Opens G F ks) {us : List Token}
    (hus : F (firstKind us)) : G (firstKind (tokensOf ks ++ us)) := by
  cases h with
  | nil h => exact h _ hus
  | cons h => exact h

namespace Parse

variable {α β : Type}

/-- With some tokens behind those that it has read the parser succeeds, in front of anything that
`F` allows. -/
def Finishes (c : Cursor) (F : Kind → Prop) (p : Parse α) (used : List Token) : Prop :=
  ∃ ks : List Kind, ∀ us, F (firstKind us) → .eof ∉ ks ∧
    ∃ a, p (c.facing (used ++ (tokensOf ks ++ us))) = .ok a (c.facing us)

/-- What comes out of a parser is settled by the tokens that it reads and the next one, and what it
has read can be completed. -/
inductive Outcome (c : Cursor) (F : Kind → Prop) (p : Parse α) :
    List Token → EStateM.Result Fault Cursor α → Prop
  | ok {used us : List Token} {a : α}
      (hagain : ∀ c' vs, c.Twin c' → c.SameNext us c' vs →
        p (c'.facing (used ++ vs)) = .ok a (c'.facing vs))
      (hfinish : used ≠ [] → Finishes c F p used) : Outcome c F p (used ++ us) (.ok a (c.facing us))
  | found {used us : List Token} {f : Fault} {d : Cursor} (hd : d.Within c us)
      (hf : f.Names d.current)
      (hagain : ∀ c' vs, c.Twin c' → c.SameNext us c' vs →
        ∃ d', p (c'.facing (used ++ vs)) = .error f d')
      (hfinish : d.depth < d.limit → used ≠ [] → Finishes c F p used) :
      Outcome c F p (used ++ us) (.error f d)
  | other {ts : List Token} {f : Fault} {d : Cursor} (hf : f.cause.found? = none) :
      Outcome c F p ts (.error f d)

/-- The outcome of a run in front of `ts`. -/
abbrev SteadyAt (c : Cursor) (F : Kind → Prop) (p : Parse α) (ts : List Token) : Prop :=
  Outcome c F p ts (p (c.facing ts))

/-- All runs of the parser, where `r` more levels can be opened. -/
def Steady (r : Nat) (F : Kind → Prop) (p : Parse α) : Prop :=
  ∀ ⦃c : Cursor⦄, c.HasRoom r → ∀ ts, SteadyAt c F p ts

/-- A parser that has read nothing succeeds on tokens of the kinds `ks`. If it is `deep` it opens a
level for them, and then it never succeeds without reading something. -/
structure Fresh (r : Nat) (deep : Bool) (ks : List Kind) (F : Kind → Prop) (p : Parse α) :
    Prop where
  -- that no end mark is among `ks` is only known of what follows another parser once that succeeds
  succeeds : ∀ ⦃c : Cursor⦄, c.HasRoom r → (deep = true → 0 < r) → ∀ us, F (firstKind us) →
    .eof ∉ ks ∧ ∃ a, p (c.facing (tokensOf ks ++ us)) = .ok a (c.facing us)
  busy : deep = true → ∀ ⦃c : Cursor⦄, c.HasRoom r → ∀ ts a, p (c.facing ts) ≠ .ok a (c.facing ts)

/-- A parser that can be completed wherever it stops. -/
structure Viable (r : Nat) (deep : Bool) (ks : List Kind) (F : Kind → Prop) (p : Parse α) : Prop
    extends Fresh r deep ks F p where
  steady : Steady r F p

variable {c : Cursor} {r : Nat} {F G : Kind → Prop} {ts : List Token}

theorem Finishes.mono {p : Parse α} {used : List Token} (h : Finishes c F p used)
    (hG : ∀ k, G k → F k) : Finishes c G p used := by
  obtain ⟨ks, hok⟩ := h
  exact ⟨ks, fun us hus ↦ hok us (hG _ hus)⟩

theorem Outcome.mono {p : Parse α} {x : EStateM.Result Fault Cursor α} (h : Outcome c F p ts x)
    (hG : ∀ k, G k → F k) : Outcome c G p ts x := by
  cases h with
  | ok hagain hfinish => exact .ok hagain fun hne ↦ (hfinish hne).mono hG
  | found hd hf hagain hfinish =>
      exact .found hd hf hagain fun hroom hne ↦ (hfinish hroom hne).mono hG
  | other hf => exact .other hf

theorem Steady.mono {p : Parse α} (h : Steady r F p) (hG : ∀ k, G k → F k) : Steady r G p :=
  fun _ hc ts ↦ (h hc ts).mono hG

theorem Viable.mono {p : Parse α} {deep : Bool} {ks : List Kind} (h : Viable r deep ks F p)
    (hG : ∀ k, G k → F k) : Viable r deep ks G p where
  succeeds _ hc hr us hus := h.succeeds hc hr us (hG _ hus)
  busy := h.busy
  steady := h.steady.mono hG

/-- Parsers that do the same wherever the next token is the one here. -/
theorem SteadyAt.of_eq {p q : Parse α} (hc : c.stop.kind = .eof)
    (hpq : ∀ c' vs, c.Twin c' → c.SameNext ts c' vs → p (c'.facing vs) = q (c'.facing vs))
    (h : SteadyAt c F q ts) : SteadyAt c F p ts := by
  have hself := Cursor.Twin.refl hc
  unfold SteadyAt at h ⊢
  rw [hpq c ts hself ⟨rfl, fun _ ↦ rfl⟩]
  generalize q (c.facing ts) = x at h
  have hfinish {used us : List Token} (hts : ts = used ++ us) (hne : used ≠ [])
      (hq : Finishes c F q used) : Finishes c F p used := by
    obtain ⟨ks, hok⟩ := hq
    refine ⟨ks, fun vs hvs ↦ ?_⟩
    rw [hpq c _ hself (hts ▸ Cursor.SameNext.of_ne_nil c hne us _)]
    exact hok vs hvs
  cases h with
  | ok hagain hcomplete =>
      refine .ok (fun c' vs htwin hnext ↦ ?_) fun hne ↦ hfinish rfl hne (hcomplete hne)
      rw [hpq c' _ htwin (hnext.append _)]
      exact hagain c' vs htwin hnext
  | found hd hf hagain hcomplete =>
      refine .found hd hf (fun c' vs htwin hnext ↦ ?_) fun hroom hne ↦
        hfinish rfl hne (hcomplete hroom hne)
      rw [hpq c' _ htwin (hnext.append _)]
      exact hagain c' vs htwin hnext
  | other hf => exact .other hf

/-- A parser that reads nothing. -/
theorem SteadyAt.of_nothing {p : Parse α} {a : α} (hc : c.stop.kind = .eof)
    (hp : ∀ c' vs, c.Twin c' → c.SameNext ts c' vs → p (c'.facing vs) = .ok a (c'.facing vs)) :
    SteadyAt c F p ts := by
  have hrun : Outcome c F p ([] ++ ts) (.ok a (c.facing ts)) :=
    .ok hp fun hne ↦ absurd rfl hne
  rwa [← hp c ts (.refl hc) ⟨rfl, fun _ ↦ rfl⟩] at hrun

/-- A parser that reads one token, whatever follows. -/
theorem SteadyAt.of_token {p : Parse α} {a : α} {t : Token} {us : List Token}
    (hp : ∀ (c' : Cursor) vs, p (c'.facing (t :: vs)) = .ok a (c'.facing vs)) :
    SteadyAt c F p (t :: us) := by
  have hrun : Outcome c F p ([t] ++ us) (.ok a (c.facing us)) :=
    .ok (fun c' vs _ _ ↦ hp c' vs) fun _ ↦ ⟨[], fun vs _ ↦ ⟨List.not_mem_nil, a, hp c vs⟩⟩
  rwa [← hp c us] at hrun

section bind

variable {q : Parse α} {f : α → Parse β} {deep : Bool} {ks : List Kind} {used : List Token}

theorem Finishes.bind (hc : c.HasRoom r) (hq : Finishes c G q used)
    (hf : ∀ a, Fresh r deep ks F (f a)) (hG : Opens G F ks) (hroom : deep = true → 0 < r) :
    Finishes c F (q >>= f) used := by
  obtain ⟨js, hok⟩ := hq
  refine ⟨js ++ ks, fun us hus ↦ ?_⟩
  obtain ⟨hjs, a, ha⟩ := hok (tokensOf ks ++ us) (hG.firstKind hus)
  obtain ⟨hks, b, hb⟩ := (hf a).succeeds hc hroom us hus
  refine ⟨fun hmem ↦ (List.mem_append.mp hmem).elim hjs hks, b, ?_⟩
  rw [tokensOf_append, List.append_assoc, bind_of_ok ha, hb]

/-- What is read behind a part that is read as before is completed on its own. -/
theorem Finishes.bind_right {us : List Token} {a : α} (hc : c.stop.kind = .eof)
    (hagain : ∀ c' vs, c.Twin c' → c.SameNext us c' vs →
      q (c'.facing (used ++ vs)) = .ok a (c'.facing vs)) {more rest : List Token}
    (hus : us = more ++ rest) (hne : more ≠ []) (hf : Finishes c F (f a) more) :
    Finishes c F (q >>= f) (used ++ more) := by
  obtain ⟨ks, hok⟩ := hf
  refine ⟨ks, fun vs hvs ↦ ?_⟩
  obtain ⟨hks, b, hb⟩ := hok vs hvs
  refine ⟨hks, b, ?_⟩
  have ha := hagain c _ (.refl hc)
    (hus ▸ Cursor.SameNext.of_ne_nil c hne rest (tokensOf ks ++ vs))
  rw [List.append_assoc, bind_of_ok ha, hb]

theorem SteadyAt.bind (hc : c.HasRoom r) (hq : SteadyAt c G q ts)
    (hf : ∀ a, Fresh r deep ks F (f a)) (hG : Opens G F ks)
    (hsteady : ∀ a us, q (c.facing ts) = .ok a (c.facing us) → SteadyAt c F (f a) us) :
    SteadyAt c F (q >>= f) ts := by
  unfold SteadyAt at hq ⊢
  rw [bind_eq]
  generalize q (c.facing ts) = x at hq hsteady ⊢
  cases hq with
  | @found used us fault d hd hnames hagain hfinish =>
      refine .found hd hnames (fun c' vs htwin hnext ↦ ?_) fun hroom hne ↦ ?_
      · obtain ⟨d', herror⟩ := hagain c' vs htwin hnext
        exact ⟨d', bind_of_error herror⟩
      · exact (hfinish hroom hne).bind hc hf hG fun _ ↦ hd.room_pos hc hroom
  | other hnone => exact .other hnone
  | @ok used us a hagain hfinish =>
      have hnext := hsteady a us rfl
      show Outcome c F (q >>= f) (used ++ us) (f a (c.facing us))
      unfold SteadyAt at hnext
      generalize hy : f a (c.facing us) = y at hnext ⊢
      cases hnext with
      | @ok more rest b hagain' hfinish' =>
          rw [← List.append_assoc]
          refine .ok (fun c' vs htwin hnext ↦ ?_) fun hne ↦ ?_
          · rw [List.append_assoc, bind_of_ok (hagain c' _ htwin (hnext.append more))]
            exact hagain' c' vs htwin hnext
          · by_cases hmore : more = []
            · subst hmore
              rw [List.append_nil] at hne ⊢
              refine (hfinish hne).bind hc hf hG fun hdeep ↦ ?_
              exact absurd hy ((hf a).busy hdeep hc rest b)
            · exact .bind_right hc.stop hagain rfl hmore (hfinish' hmore)
      | @found more rest fault d hd hnames hagain' hfinish' =>
          rw [← List.append_assoc]
          refine .found ⟨hd.ahead, hd.stop, hd.limit, hd.depth⟩ hnames
            (fun c' vs htwin hnext ↦ ?_) fun hroom hne ↦ ?_
          · obtain ⟨d', herror⟩ := hagain' c' vs htwin hnext
            refine ⟨d', ?_⟩
            rw [List.append_assoc, bind_of_ok (hagain c' _ htwin (hnext.append more)), herror]
          · by_cases hmore : more = []
            · subst hmore
              rw [List.append_nil] at hne ⊢
              exact (hfinish hne).bind hc hf hG fun _ ↦ hd.room_pos hc hroom
            · exact .bind_right hc.stop hagain rfl hmore (hfinish' hroom hmore)
      | other hnone => exact .other hnone

theorem SteadyAt.of_ok {a : α} {d : Cursor} (h : SteadyAt c F q ts)
    (hok : q (c.facing ts) = .ok a d) : ∃ used us, ts = used ++ us ∧ d = c.facing us := by
  unfold SteadyAt at h
  rw [hok] at h
  cases h with
  | ok _ _ => exact ⟨_, _, rfl, rfl⟩

/-- A run that comes out with a result does so again in front of tokens that go on alike. -/
theorem SteadyAt.again {a : α} {us : List Token} (h : SteadyAt c F q (used ++ us))
    (hok : q (c.facing (used ++ us)) = .ok a (c.facing us)) {c' : Cursor} {vs : List Token}
    (htwin : c.Twin c') (hnext : c.SameNext us c' vs) :
    q (c'.facing (used ++ vs)) = .ok a (c'.facing vs) := by
  unfold SteadyAt at h
  rw [hok] at h
  generalize hts : used ++ us = ts at h
  generalize hd : c.facing us = d at h
  cases h with
  | @ok used' us' _ hagain _ =>
      obtain rfl : us = us' := congrArg Cursor.ahead hd
      obtain rfl := List.append_cancel_right hts
      exact hagain c' vs htwin hnext

/-- What succeeds on tokens of its own can be completed before it has read anything. -/
theorem Fresh.finishes (h : Fresh r false ks F q) (hc : c.HasRoom r) : Finishes c F q [] :=
  ⟨ks, h.succeeds hc nofun⟩

theorem Steady.bind (hq : Steady r G q) (hf : ∀ a, Viable r deep ks F (f a)) (hG : Opens G F ks) :
    Steady r F (q >>= f) :=
  fun _ hc ts ↦ (hq hc ts).bind hc (fun a ↦ (hf a).toFresh) hG fun a us _ ↦ (hf a).steady hc us

theorem Viable.bind {d : Bool} {js : List Kind} (hq : Viable r deep js G q)
    (hf : ∀ a, Viable r d ks F (f a)) (hG : Opens G F ks) :
    Viable r (deep || d) (js ++ ks) F (q >>= f) where
  succeeds c hc hroom us hus := by
    obtain ⟨hjs, a, ha⟩ := hq.succeeds hc (fun h ↦ hroom (by simp [h])) (tokensOf ks ++ us)
      (hG.firstKind hus)
    obtain ⟨hks, b, hb⟩ := (hf a).succeeds hc (fun h ↦ hroom (by simp [h])) us hus
    refine ⟨fun hmem ↦ (List.mem_append.mp hmem).elim hjs hks, b, ?_⟩
    rw [tokensOf_append, List.append_assoc, bind_of_ok ha, hb]
  busy hdeep c hc ts b h := by
    obtain ⟨a, e, ha, hb⟩ := exists_of_bind_eq_ok h
    obtain ⟨used, us, rfl, rfl⟩ := (hq.steady hc ts).of_ok ha
    obtain ⟨more, vs, rfl, hvs⟩ := ((hf a).steady hc us).of_ok hb
    have hall : used ++ (more ++ vs) = vs := congrArg Cursor.ahead hvs
    have hlength := congrArg List.length hall
    rw [List.length_append, List.length_append] at hlength
    obtain rfl := List.length_eq_zero_iff.mp (show used.length = 0 by omega)
    obtain rfl := List.length_eq_zero_iff.mp (show more.length = 0 by omega)
    rcases Bool.or_eq_true_iff.mp hdeep with hdeep | hdeep
    · exact hq.busy hdeep hc _ a ha
    · exact (hf a).busy hdeep hc _ b hb
  steady := hq.steady.bind hf hG

end bind

end Parse
end Offside
