import Offside.Proofs.Parse.Rounds
import Offside.Proofs.Parse.Routine

/-!
# The discipline of the cursor

Whatever is done at a cursor, whether it succeeds or fails, the cursor only goes forward and not
beyond the first end mark. Levels that were opened are closed again unless there is a fault. So
every loop of the parsers ends, and never more levels are open than may be.
-/

namespace Offside

/-- What can be done at a cursor. -/
inductive Action where
  | advance
  | expect (k : Kind)
  | identifier
  | skipNewlines
  | enter
  | leave
  | run (r : Routine)
  deriving DecidableEq, Repr

namespace Action

abbrev Result : Action → Type
  | advance | expect _ => Token
  | identifier => String
  | skipNewlines | enter | leave => Unit
  | run r => r.Result

def parser : (a : Action) → Parse a.Result
  | advance => Parse.advance
  | expect k => Parse.expect k
  | identifier => Parse.identifier
  | skipNewlines => Parse.skipNewlines
  | enter => Parse.enter
  | leave => Parse.leave
  | run r => Parse.here r.parser

end Action

/-- The cursors that any actions lead to, whether they succeed or fail. -/
inductive Cursor.Reachable (mode : Mode) (ts : List Token) : Cursor → Prop
  | start : Reachable mode ts (ofTokens mode ts)
  | action {c : Cursor} (h : Reachable mode ts c) (a : Action) :
      Reachable mode ts (a.parser.apply c).2

/-- The cursor stands at the token with index `i` of the closed list, or before it, not behind
the first end mark. -/
structure Cursor.StandsAt (mode : Mode) (ts : List Token) (i : Nat) (c : Cursor) : Prop where
  le : i ≤ (content ts).length
  ahead : c.ahead = (content ts).drop i
  rest : sealTokens ts = content ts ++ c.stop :: c.beyond
  stop : c.stop.kind = .eof
  limit : c.limit = nestingLimit
  mode : c.mode = mode

/-- Expressions, statements and blocks, which all the others are parts of. -/
def Routine.Main : Routine → Prop
  | expr _ | statement | block => True
  | _ => False

/-- What can come of a cursor that stands at the token with index `i`. -/
structure Disciplined (mode : Mode) (ts : List Token) (i : Nat) (c : Cursor) : Prop where
  stands : c.StandsAt mode ts i
  /-- Whatever is looked up is a token of the list. -/
  peek (n : Nat) :
    (Cursor.sealTokens ts)[min (i + n) ((Cursor.sealTokens ts).length - 1)]? = some (c.peek n)
  /-- No action leads backwards or beyond the first end mark. -/
  forward (a : Action) : ∃ j, i ≤ j ∧ (a.parser.apply c).2.StandsAt mode ts j
  /-- A token that is missing is missed without a change. -/
  expect {k : Kind} {e : Fault} {d : Cursor} : Parse.expect k c = .error e d → d = c
  /-- With success the levels are closed that were opened. -/
  closes {r : Routine} {a : r.Result} {d : Cursor} :
    Parse.here r.parser c = .ok a d → d.depth = c.depth
  /-- What succeeds in reading an expression, a statement or a block reads a token. -/
  consumes {r : Routine} {a : r.Result} {d : Cursor} :
    r.Main → Parse.here r.parser c = .ok a d → ∃ j, i < j ∧ d.StandsAt mode ts j
  /-- With failure levels stay open, no more of them than may be. -/
  opens {r : Routine} {e : Fault} {d : Cursor} : Parse.here r.parser c = .error e d →
    c.depth ≤ d.depth ∧ (d.depth ≤ max c.depth nestingLimit ∨
      e.cause = .nestingTooDeep nestingLimit ∧ d.depth = max c.depth nestingLimit + 1)
  /-- Every loop comes to its end without a bound. -/
  rounds (loop : Loop) (a : loop.State) : ∃ n ≤ (content ts).length - i,
    Parse.Rounds loop.next? (loop.round (Level.ofRoom c.room)) n a c
      (loop.run (Level.ofRoom c.room) a c)
  /-- What there is below the levels that may be opened is never used. -/
  levels (r : Routine) (bottom : Option Level) {n : Nat} : nestingLimit ≤ c.depth + n →
    r.parser (Level.tower bottom n) c = Parse.here r.parser c

namespace Cursor

variable {mode : Mode} {ts : List Token} {i : Nat} {c d : Cursor}

theorem ofTokens_standsAt (mode : Mode) (ts : List Token) :
    (ofTokens mode ts).StandsAt mode ts 0 where
  le := Nat.zero_le _
  ahead := congrArg ahead (ofTokens_eq mode ts)
  rest := sealTokens_eq mode ts
  stop := (ofTokens_proper mode ts).1
  limit := rfl
  mode := rfl

theorem StandsAt.length_ahead (h : c.StandsAt mode ts i) :
    c.ahead.length = (content ts).length - i := by
  rw [h.ahead, List.length_drop]

/-- Going on leads forward, and further on if fewer tokens are ahead. -/
theorem StandsAt.onward (h : c.StandsAt mode ts i) (hd : c.Onward d) :
    ∃ j, i ≤ j ∧ d.StandsAt mode ts j ∧ (d.ahead.length < c.ahead.length → i < j) := by
  have hle := hd.ahead.length_le
  have hlength := h.length_ahead
  have hi := h.le
  refine ⟨i + (c.ahead.length - d.ahead.length), Nat.le_add_right .., ?_, fun hlt ↦ by omega⟩
  refine ⟨by omega, ?_, ?_, ?_, hd.limit.trans h.limit, hd.mode.trans h.mode⟩
  · rw [← List.drop_drop, ← h.ahead]
    exact List.suffix_iff_eq_drop.mp hd.ahead
  · rw [hd.stop, hd.beyond]
    exact h.rest
  · rw [hd.stop]
    exact h.stop

theorem StandsAt.peek (h : c.StandsAt mode ts i) (n : Nat) :
    (sealTokens ts)[min (i + n) ((sealTokens ts).length - 1)]? = some (c.peek n) := by
  have htokens : c.ahead ++ c.stop :: c.beyond = (sealTokens ts).drop i := by
    rw [h.ahead, h.rest, List.drop_append_of_le_length h.le]
  have hlt : i < (sealTokens ts).length := by
    rw [h.rest, List.length_append, List.length_cons]
    have hle := h.le
    omega
  rw [Cursor.peek, htokens, List.getElem?_drop]
  by_cases hn : i + n < (sealTokens ts).length
  · rw [Nat.min_eq_left (by omega), List.getElem?_eq_getElem hn]
    rfl
  · rw [Nat.min_eq_right (by omega), List.getElem?_eq_none (Nat.le_of_not_lt hn),
      ← List.getLast?_eq_getElem?, List.getLastD_eq_getLast?, List.getLast?_drop,
      if_neg (Nat.not_le.mpr hlt)]
    rw [List.getLast?_eq_some_getLast (sealTokens_ne_nil ts)]
    rfl

end Cursor

theorem Cursor.Tracks.onward {α : Type} {f : Position → Position} {g : α → α} {c : Cursor}
    {p : Parse α} {y : EStateM.Result Fault Cursor α} (h : c.Tracks f g (p c) y) :
    c.Onward (p.apply c).2 := by
  rw [Parse.apply]
  generalize p c = x at h ⊢
  cases h with
  | ok hus => exact .facing hus
  | error hgiven => exact hgiven.toOnward

theorem Action.onward (a : Action) (c : Cursor) : c.Onward (a.parser.apply c).2 := by
  have hsame {α : Type} {g : α → α} {p : Parse α} (hp : (tracking id c.room).Same g p p) :
      c.Onward (p.apply c).2 :=
    (hp c.current.kind c.limit_le_add_room rfl).onward
  cases a with
  | advance => exact hsame fun _ ↦ Parse.advance_tracked
  | expect k => exact hsame ((tracking_uniform id _).same_expect k)
  | identifier => exact hsame Comparison.same_identifier
  | skipNewlines => exact hsame Comparison.same_skipNewlines
  | enter =>
      have hdeepen := (Cursor.GivesUp.deepen c).toOnward
      by_cases hroom : c.limit < c.depth + 1
      · have hrun : Parse.enter c = _ := (Parse.enter_eq c).trans (if_pos hroom)
        simpa only [parser, Parse.apply, hrun] using hdeepen
      · have hrun : Parse.enter c = _ := (Parse.enter_eq c).trans (if_neg hroom)
        simpa only [parser, Parse.apply, hrun] using hdeepen
  | leave => exact ⟨List.suffix_rfl, rfl, rfl, rfl, rfl⟩
  | run r => exact (r.tracks_here id c).onward

theorem Cursor.Reachable.standsAt {mode : Mode} {ts : List Token} {c : Cursor}
    (h : Reachable mode ts c) : ∃ i, c.StandsAt mode ts i := by
  induction h with
  | start => exact ⟨0, ofTokens_standsAt mode ts⟩
  | @action c _ a ih =>
      obtain ⟨i, hc⟩ := ih
      obtain ⟨j, -, hd, -⟩ := hc.onward (a.onward c)
      exact ⟨j, hd⟩

theorem Routine.Main.length_lt {r : Routine} (hr : r.Main) {c d : Cursor} {a : r.Result}
    (hc : c.stop.kind = .eof) (h : Parse.here r.parser c = .ok a d) :
    d.ahead.length < c.ahead.length := by
  have hproper : c.Proper c.mode := ⟨hc, rfl⟩
  have hlevel := Level.ofRoom_readsPhrases c.mode c.room
  have hblock : Parse.Sound c.mode (Level.ofRoom c.room).block
    (fun b ↦ (Part.block b).Reads (.exact c.mode)) c.room := Level.ofRoom_block_sound c.room
  cases r with
  | expr p =>
      have hrun : (Level.ofRoom c.room).expr p (c.facing c.ahead) = .ok a d := h
      obtain ⟨n, us, -, hread, rfl⟩ := hlevel.expr p hproper hrun
      exact hread.1.length_lt nofun
  | statement =>
      have hrun : (Level.ofRoom c.room).statement (c.facing c.ahead) = .ok a d := h
      obtain ⟨n, us, -, hread, rfl⟩ := Level.statement_sound hlevel hblock hproper hrun
      exact Stmt.Item.consumes c.mode hread
  | block =>
      have hrun : (Level.ofRoom c.room).block (c.facing c.ahead) = .ok a d := h
      obtain ⟨n, us, -, hread, rfl⟩ := hblock hproper hrun
      exact hread.length_lt (Layout.suffix_of_exact_gap c.mode) trivial
  | _ => exact hr.elim

theorem program_eq_run (c : Cursor) : Parse.program c =
    match (Loop.statements .eof).run (Level.ofRoom c.skipNewlines.room) [] c.skipNewlines with
    | .ok ss d => .ok ⟨ss.reverse, .start⟩ d
    | .error e d => .error e d := by
  have hstatements : Parse.here (·.statements .eof) c.skipNewlines =
      (List.reverse <$> (Loop.statements .eof).run (Level.ofRoom c.skipNewlines.room) [])
        c.skipNewlines := congrFun (Parse.many_eq _ _) _
  rw [Parse.program, Parse.bind_of_ok (Parse.skipNewlines_eq c), Parse.bind_eq, hstatements,
    Parse.map_eq]
  cases (Loop.statements .eof).run (Level.ofRoom c.skipNewlines.room) [] c.skipNewlines <;> rfl

theorem Cursor.Reachable.disciplined {mode : Mode} {ts : List Token} {c : Cursor}
    (hreachable : Reachable mode ts c) : ∃ i, Disciplined mode ts i c := by
  obtain ⟨i, hstands⟩ := hreachable.standsAt
  refine ⟨i, ?_⟩
  constructor
  case stands => exact hstands
  case peek => exact hstands.peek
  case forward =>
    intro a
    obtain ⟨j, hle, hd, -⟩ := hstands.onward (a.onward c)
    exact ⟨j, hle, hd⟩
  case expect =>
    intro k e d h
    rw [Parse.expect_eq] at h
    split at h
    · cases h
    · cases h
      rfl
  case closes =>
    intro r a d h
    obtain ⟨us, -, rfl⟩ := r.exists_facing_of_ok h
    rfl
  case consumes =>
    intro r a d hr h
    have hlt := hr.length_lt hstands.stop h
    obtain ⟨us, hus, rfl⟩ := r.exists_facing_of_ok h
    obtain ⟨j, -, hd, hj⟩ := hstands.onward (.facing hus)
    exact ⟨j, hj hlt, hd⟩
  case opens =>
    intro r e d h
    have hgiven := r.givesUp_of_error h
    rw [← hstands.limit]
    exact ⟨hgiven.le_depth, hgiven.depth_le⟩
  case rounds =>
    intro loop a
    rw [← hstands.length_ahead]
    exact loop.rounds hstands.stop c.room a
  case levels =>
    intro r bottom n hn
    rw [← hstands.limit] at hn
    exact r.tower_eq_here bottom hn

/-- Progress and discipline of all that can be done at a cursor, whatever the tokens are. Parsing
comes to its end for all tokens, with no more statements than there are tokens. -/
theorem parser_disciplined (mode : Mode) (ts : List Token) :
    (∀ c, Cursor.Reachable mode ts c → ∃ i, Disciplined mode ts i c) ∧
      ∃ n ≤ (content ts).length, ∃ x, Parse.Rounds (Loop.next? (.statements .eof))
          (Loop.round (Level.ofRoom nestingLimit) (.statements .eof)) n []
          (Cursor.ofTokens mode ts).skipNewlines x ∧
        parse mode ts = match x with
          | .ok ss _ => .ok ⟨ss.reverse, .start⟩
          | .error e _ => .error e := by
  refine ⟨fun c h ↦ h.disciplined, ?_⟩
  obtain ⟨i, hstart⟩ := (Cursor.Reachable.start.action .skipNewlines).disciplined
  obtain ⟨n, hn, hrounds⟩ := hstart.rounds (.statements .eof) []
  have hroom : (Cursor.ofTokens mode ts).skipNewlines.room = nestingLimit := rfl
  refine ⟨n, hn.trans (Nat.sub_le ..), (Loop.statements .eof).run (Level.ofRoom nestingLimit) []
    (Cursor.ofTokens mode ts).skipNewlines, hrounds, ?_⟩
  rw [parse, Parse.apply, program_eq_run, hroom]
  cases (Loop.statements .eof).run (Level.ofRoom nestingLimit) []
    (Cursor.ofTokens mode ts).skipNewlines <;> rfl

/-- There is an end mark inside, and the number in front of it has no value. Where the closing
parenthesis is missing the level of the condition is still open. -/
theorem parser_disciplined_end_inside :
    let ts : List Token := [⟨.keyword .ifKw, "if", none, ⟨1, 1⟩⟩,
      ⟨.mark .openParen, "(", none, ⟨1, 4⟩⟩, ⟨.integer, "1", none, ⟨1, 5⟩⟩,
      .layout .eof ⟨1, 6⟩, ⟨.mark .closeParen, ")", none, ⟨1, 7⟩⟩]
    let c := ((Action.run .statement).parser.apply (Cursor.ofTokens .strict ts)).2
    Cursor.Reachable .strict ts c ∧ c.ahead = [] ∧ c.depth = 1 ∧
      ∃ i, Disciplined .strict ts i c := by
  intro ts c
  have hreachable : Cursor.Reachable .strict ts c := .action .start (.run .statement)
  exact ⟨hreachable, by rfl, by rfl, (parser_disciplined .strict ts).1 c hreachable⟩

end Offside
