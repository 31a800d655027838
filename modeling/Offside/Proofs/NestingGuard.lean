import Offside.Proofs.Parse.CompleteProgram
import Offside.Proofs.Parse.Routine
import Offside.Proofs.Parse.Spending

/-!
# The limit on open levels

Parsing does not need the limit to come to its end: however the tokens are, no more levels are ever
open at once than there are tokens and two. The limit changes nothing about a source that stays
within it. Where more levels would be opened, the first one too many is refused, at the token where
it would be opened.
-/

namespace Offside

/-- No more levels than these are open at once. -/
def levelBound (ts : List Token) : Nat :=
  ts.length + 2

/-- Parsing without a limit. -/
def parseUnlimited (mode : Mode) (ts : List Token) : Except Fault Program :=
  ((Level.nested .never (levelBound ts) 0).program.apply (Cursor.ofTokens mode ts)).1

/-- The run without a limit opens its `n`th level at `d`: it ends there if nothing but this level is
refused. -/
def Enters (mode : Mode) (ts : List Token) (n : Nat) (d : Cursor) : Prop :=
  (Guard.only n d).run (levelBound ts) mode ts = .error d.tooDeep d

namespace Guard

variable {guard : Guard} {room : Nat} {mode : Mode} {ts : List Token} {e : Fault} {d : Cursor}

theorem depth_le_of_run_eq_error (h : guard.run room mode ts = .error e d) :
    d.depth ≤ levelBound ts := by
  have hprogram : Parse.Frugal 2 (Level.nested guard room 0).program :=
    .of_same ((Level.nested_thrifty guard room 0).compares.program rfl)
  have hrun := hprogram _ (Cursor.ofTokens_proper mode ts).1 rfl
  rw [← run, h] at hrun
  cases hrun with
  | error hle =>
      have hlength : (Cursor.ofTokens mode ts).ahead.length ≤ ts.length := by
        rw [Cursor.ofTokens_eq, Cursor.ahead_facing]
        exact (List.takeWhile_prefix _).length_le
      have hdepth : (Cursor.ofTokens mode ts).depth = 0 := rfl
      rw [levelBound]
      omega

/-- A run that ends for want of a level ends where it is stopped. -/
theorem stops_of_run_eq_error {limit : Nat} (h : guard.run room mode ts = .error e d)
    (he : e.cause = .nestingTooDeep limit) :
    e = d.tooDeep ∧ guard.Stops room d ∧ (Cursor.ofTokens mode ts).Onward d := by
  have hsame (d : Cursor) (hd : guard.Stops room d) : guard.Stops room d := hd
  have hforks := run_forks hsame mode ts
  rw [h] at hforks
  cases hforks with
  | error _ hcause => exact absurd he (hcause limit)
  | stopped hd hS _ => exact ⟨rfl, hS, hd⟩
  | refused _ hS hS' _ => exact absurd hS' hS

/-- Levels that are refused anyway, or never opened, do not have to be there. -/
theorem run_eq_of_le {room' : Nat} (hle : room' ≤ room)
    (hrefused : ∀ e d, guard.run room' mode ts = .error e d →
      (Cursor.ofTokens mode ts).Onward d → room' < d.depth → guard d.depth d = true) :
    guard.run room mode ts = guard.run room' mode ts := by
  have hstops (d : Cursor) (hd : guard.Stops room d) : guard.Stops room' d :=
    hd.imp_right hle.trans_lt
  have hforks := run_forks hstops mode ts
  generalize hx : guard.run room mode ts = x at hforks ⊢
  generalize hy : guard.run room' mode ts = y at hforks ⊢
  cases hforks with
  | ok _ => rfl
  | error _ _ => rfl
  | stopped _ _ _ => rfl
  | refused hd hS hS' _ => exact absurd (.inl (hS'.elim id (hrefused _ _ hy hd))) hS

/-- More room than the tokens ask for does not matter. -/
theorem run_of_levelBound_le (hroom : levelBound ts ≤ room) :
    guard.run room mode ts = guard.run (levelBound ts) mode ts := by
  refine run_eq_of_le hroom fun e d h _ hlt ↦ ?_
  exact absurd (depth_le_of_run_eq_error h) (Nat.not_le_of_lt hlt)

end Guard

/-- The count of the cursor leaves no room beyond the limit. -/
theorem Parse.program_eq_run (mode : Mode) (ts : List Token) :
    program (Cursor.ofTokens mode ts) = Guard.byCount.run (levelBound ts) mode ts := by
  have hroom : Guard.byCount.run (max nestingLimit (levelBound ts)) mode ts =
      Guard.byCount.run nestingLimit mode ts := by
    refine Guard.run_eq_of_le (Nat.le_max_left ..) fun e d _ hd hlt ↦ ?_
    rw [Guard.byCount, decide_eq_true_eq, hd.limit]
    exact hlt
  rw [program_eq, Level.ofRoom_eq_nested _ 0]
  exact hroom.symm.trans (Guard.run_of_levelBound_le (Nat.le_max_right ..))

section

variable {guard : Guard} {mode : Mode} {ts : List Token} {n : Nat} {e : Fault} {d : Cursor}

namespace Enters

theorem onward (h : Enters mode ts n d) : (Cursor.ofTokens mode ts).Onward d :=
  (Guard.stops_of_run_eq_error h rfl).2.2

/-- The count of the cursor is right: levels that have been left are not counted. -/
theorem depth_eq (h : Enters mode ts n d) : d.depth = n := by
  obtain ⟨-, hstops, -⟩ := Guard.stops_of_run_eq_error h rfl
  have hbound := Guard.depth_le_of_run_eq_error h
  have honly := hstops.resolve_right (Nat.not_lt_of_le hbound)
  exact (of_decide_eq_true honly).1

theorem byCount_iff (h : Enters mode ts n d) :
    Guard.byCount n d = true ↔ nestingLimit < n := by
  rw [Guard.byCount, decide_eq_true_eq, h.depth_eq, h.onward.limit]
  rfl

/-- Where a level is refused that the run without a limit opens, the run ends at the latest. -/
theorem exists_of_refused (h : Enters mode ts n d) (hrefused : guard n d = true) :
    ∃ d', guard.run (levelBound ts) mode ts = .error d'.tooDeep d' ∧ d'.Onward d := by
  have hle (x : Cursor) (hx : (Guard.only n d).Stops (levelBound ts) x) :
      guard.Stops (levelBound ts) x := by
    refine hx.imp_left fun hx ↦ ?_
    obtain ⟨hn, rfl⟩ := of_decide_eq_true hx
    rwa [hn]
  have hforks := Guard.run_forks hle mode ts
  generalize hx : (Guard.only n d).run (levelBound ts) mode ts = x at hforks
  have hend := hx.symm.trans h
  generalize guard.run (levelBound ts) mode ts = y at hforks ⊢
  cases hforks with
  | ok _ => cases hend
  | error _ hcause =>
      obtain ⟨rfl, -⟩ := EStateM.Result.error.inj hend
      exact absurd rfl (hcause d.limit)
  | stopped _ _ _ =>
      obtain ⟨-, rfl⟩ := EStateM.Result.error.inj hend
      exact ⟨_, rfl, .refl _⟩
  | @refused d' _ _ _ _ hpasses =>
      subst hend
      cases hpasses with
      | error hd => exact ⟨d', rfl, hd⟩

end Enters

/-- A guarded run ends for want of a level only where the run without a limit opens one that the
guard refuses. -/
theorem Guard.enters_of_run_eq_error {limit : Nat}
    (h : guard.run (levelBound ts) mode ts = .error e d) (he : e.cause = .nestingTooDeep limit) :
    Enters mode ts d.depth d ∧ guard d.depth d = true := by
  obtain ⟨rfl, hstops, -⟩ := stops_of_run_eq_error h he
  have hbound := depth_le_of_run_eq_error h
  have hrefused := hstops.resolve_right (Nat.not_lt_of_le hbound)
  refine ⟨?_, hrefused⟩
  have hle (x : Cursor) (hx : (only d.depth d).Stops (levelBound ts) x) :
      guard.Stops (levelBound ts) x := by
    refine hx.imp_left fun hx ↦ ?_
    obtain ⟨-, rfl⟩ := of_decide_eq_true hx
    exact hrefused
  have hforks := run_forks hle mode ts
  generalize hy : guard.run (levelBound ts) mode ts = y at hforks
  have hend := hy.symm.trans h
  rw [Enters]
  generalize (only d.depth d).run (levelBound ts) mode ts = x at hforks ⊢
  cases hforks with
  | ok _ => cases hend
  | error _ _ | stopped _ _ _ => exact hend
  | refused _ hS _ _ =>
      obtain ⟨-, rfl⟩ := EStateM.Result.error.inj hend
      exact absurd (.inl (decide_eq_true ⟨rfl, rfl⟩)) hS

/-- A guard that refuses nothing changes nothing. -/
theorem Guard.run_eq_run_never (h : ∀ n d, Enters mode ts n d → guard n d = false) :
    guard.run (levelBound ts) mode ts = never.run (levelBound ts) mode ts := by
  have hne (d : Cursor) : guard.run (levelBound ts) mode ts ≠ .error d.tooDeep d := by
    intro hrun
    obtain ⟨hd, hrefused⟩ := enters_of_run_eq_error hrun rfl
    rw [h _ d hd] at hrefused
    cases hrefused
  have hle (d : Cursor) (hd : never.Stops (levelBound ts) d) : guard.Stops (levelBound ts) d :=
    hd.imp_left nofun
  have hforks := run_forks hle mode ts
  generalize never.run (levelBound ts) mode ts = x at hforks ⊢
  generalize guard.run (levelBound ts) mode ts = y at hforks hne ⊢
  cases hforks with
  | ok _ => rfl
  | error _ _ => rfl
  | stopped _ _ _ => rfl
  | refused _ _ _ _ => exact absurd rfl (hne _)

theorem parse_eq_error_iff_run :
    parse mode ts = .error e ↔ ∃ d, Guard.byCount.run (levelBound ts) mode ts = .error e d := by
  rw [parse_eq_error_iff_program, ← Cursor.ofTokens_eq, Parse.program_eq_run]

theorem exists_run_of_parseUnlimited_eq_error (h : parseUnlimited mode ts = .error e) :
    ∃ d, Guard.never.run (levelBound ts) mode ts = .error e d := by
  rw [parseUnlimited, Parse.apply] at h
  rw [Guard.run]
  cases hrun : (Level.nested .never (levelBound ts) 0).program (Cursor.ofTokens mode ts) with
  | ok p d =>
      rw [hrun] at h
      cases h
  | error f d =>
      rw [hrun] at h
      cases h
      exact ⟨d, rfl⟩

theorem depth_le_of_program_eq_error (h : Parse.program (Cursor.ofTokens mode ts) = .error e d) :
    d.depth ≤ nestingLimit + 1 := by
  rw [Parse.program, Parse.bind_of_ok (Parse.skipNewlines_eq _), Parse.bind_eq] at h
  cases hrun : Parse.here (·.statements .eof) (Cursor.ofTokens mode ts).skipNewlines with
  | ok ss d' =>
      rw [hrun] at h
      cases h
  | error e' d' =>
      rw [hrun] at h
      obtain ⟨rfl, rfl⟩ := EStateM.Result.error.inj h
      have hmax : max (Cursor.ofTokens mode ts).depth (Cursor.ofTokens mode ts).limit =
          nestingLimit := Nat.zero_max _
      rcases ((Routine.statements .eof).givesUp_of_error hrun).depth_le with hle | ⟨-, heq⟩
      · exact (hle.trans_eq hmax).trans (Nat.le_succ _)
      · exact (heq.trans (congrArg Nat.succ hmax)).le

/-- The first level too many is the one that is refused. -/
theorem exists_enters_of_parse_eq_error {p : Position}
    (h : parse mode ts = .error ⟨.nestingTooDeep nestingLimit, p⟩) :
    ∃ d, Enters mode ts (nestingLimit + 1) d ∧ p = d.current.position ∧
      ∀ n d', nestingLimit < n → Enters mode ts n d' → d'.ahead <:+ d.ahead := by
  obtain ⟨d, hrun⟩ := parse_eq_error_iff_run.mp h
  obtain ⟨hfault, -, -⟩ := Guard.stops_of_run_eq_error hrun rfl
  obtain ⟨hd, hrefused⟩ := Guard.enters_of_run_eq_error hrun rfl
  have hgt := hd.byCount_iff.mp hrefused
  have hle := depth_le_of_program_eq_error ((Parse.program_eq_run mode ts).trans hrun)
  have hdepth : d.depth = nestingLimit + 1 := hle.antisymm hgt
  refine ⟨d, hdepth ▸ hd, congrArg Fault.position hfault, fun n d' hn hd' ↦ ?_⟩
  obtain ⟨d'', hrun', honward⟩ := hd'.exists_of_refused (hd'.byCount_iff.mpr hn)
  obtain ⟨-, rfl⟩ := EStateM.Result.error.inj (hrun.symm.trans hrun')
  exact honward.ahead

theorem Enters.exists_parse_eq_error (hd : Enters mode ts n d) (hn : nestingLimit < n) :
    ∃ p, parse mode ts = .error ⟨.nestingTooDeep nestingLimit, p⟩ := by
  obtain ⟨d', hrun, -⟩ := hd.exists_of_refused (hd.byCount_iff.mpr hn)
  have hlimit : d'.limit = nestingLimit := (Guard.stops_of_run_eq_error hrun rfl).2.2.limit
  rw [Cursor.tooDeep, hlimit] at hrun
  exact ⟨_, parse_eq_error_iff_run.mpr ⟨d', hrun⟩⟩

theorem parse_of_within (h : ∀ n d, Enters mode ts n d → n ≤ nestingLimit) :
    parse mode ts = parseUnlimited mode ts := by
  have hwithin (n : Nat) (d : Cursor) (hd : Enters mode ts n d) : Guard.byCount n d = false := by
    refine Bool.eq_false_iff.mpr fun hrefused ↦ ?_
    exact Nat.not_lt_of_le (h n d hd) (hd.byCount_iff.mp hrefused)
  rw [parse, parseUnlimited, Parse.apply, Parse.apply, Parse.program_eq_run,
    Guard.run_eq_run_never hwithin]
  rfl

theorem parseUnlimited_ne_error (limit : Nat) (p : Position) :
    parseUnlimited mode ts ≠ .error ⟨.nestingTooDeep limit, p⟩ := by
  intro h
  obtain ⟨d, hrun⟩ := exists_run_of_parseUnlimited_eq_error h
  obtain ⟨-, hrefused⟩ := Guard.enters_of_run_eq_error hrun rfl
  cases hrefused

end

/-- The limit refuses exactly the sources in which more levels would be open at once, at the first
level too many. Apart from that parsing comes to what it comes to without the limit, which is
never that the levels are too many. -/
theorem parse_eq_unlimited (mode : Mode) (ts : List Token) :
    ((∃ p, parse mode ts = .error ⟨.nestingTooDeep nestingLimit, p⟩) ↔
      ∃ n d, nestingLimit < n ∧ Enters mode ts n d) ∧
    (∀ p, parse mode ts = .error ⟨.nestingTooDeep nestingLimit, p⟩ →
      ∃ d, Enters mode ts (nestingLimit + 1) d ∧ p = d.current.position ∧
        ∀ n d', nestingLimit < n → Enters mode ts n d' → d'.ahead <:+ d.ahead) ∧
    ((∀ n d, Enters mode ts n d → n ≤ nestingLimit) →
      parse mode ts = parseUnlimited mode ts) ∧
    (∀ n d, Enters mode ts n d → d.depth = n) ∧
    ∀ limit p, parseUnlimited mode ts ≠ .error ⟨.nestingTooDeep limit, p⟩ := by
  refine ⟨⟨?_, ?_⟩, fun p ↦ exists_enters_of_parse_eq_error, parse_of_within,
    fun n d ↦ Enters.depth_eq, parseUnlimited_ne_error⟩
  · rintro ⟨p, h⟩
    obtain ⟨d, hd, -⟩ := exists_enters_of_parse_eq_error h
    exact ⟨nestingLimit + 1, d, Nat.lt_succ_self _, hd⟩
  · rintro ⟨n, d, hn, hd⟩
    exact hd.exists_parse_eq_error hn

/-- Every operator in front of an operand is a level inside of the one before. -/
example :
    let dash : Token := ⟨.mark .dash, "-", none, .start⟩
    let name : Token := ⟨.identifier, "x", none, .start⟩
    let ts := List.replicate nestingLimit dash ++ [name]
    (parse .strict ts).isOk = false ∧ (parseUnlimited .strict ts).isOk = true := by
  decide +kernel

end Offside
