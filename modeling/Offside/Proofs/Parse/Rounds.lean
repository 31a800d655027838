import Offside.Proofs.Parse.CompleteProgram

/-!
# Loops

The parsers bound the rounds of their loops by the tokens ahead. Without a bound a loop goes on
for as long as the current token is one to go on at. That is the same: every round of a loop of
the parsers reads a token, and no loop goes on at the end mark, so the bound is never what ends
the loop.
-/

namespace Offside

namespace Parse

/-- From `c` the loop over `body`, which no bound ends, comes to its end in the given number of
rounds. -/
inductive Rounds {α β : Type} (next? : Kind → Option β) (body : α → β → Parse α) :
    Nat → α → Cursor → EStateM.Result Fault Cursor α → Prop
  | done {a : α} {c : Cursor} (hnext : next? c.current.kind = none) :
      Rounds next? body 0 a c (.ok a c)
  | fails {a : α} {b : β} {c d : Cursor} {e : Fault} (hnext : next? c.current.kind = some b)
      (hround : body a b c = .error e d) : Rounds next? body 1 a c (.error e d)
  | more {n : Nat} {a a' : α} {b : β} {c d : Cursor} {x : EStateM.Result Fault Cursor α}
      (hnext : next? c.current.kind = some b) (hround : body a b c = .ok a' d)
      (hrest : Rounds next? body n a' d x) : Rounds next? body (n + 1) a c x

variable {α β : Type} {next? : Kind → Option β} {body : α → β → Parse α} {c : Cursor}

theorem chain_rounds (hc : c.stop.kind = .eof) (hstop : next? .eof = none)
    (hbody : Progresses next? body c) (ts : List Token) (a : α) :
    ∃ n ≤ ts.length,
      Rounds next? body n a (c.facing ts) (chain next? body a (c.facing ts)) := by
  have hkind (us : List Token) : next? (c.facing us).current.kind = next? (firstKind us) :=
    congrArg next? (Cursor.kind_current_facing us hc)
  induction hlength : ts.length using Nat.strong_induction_on generalizing ts a with
  | h m ih =>
      subst hlength
      cases hnext : next? (firstKind ts) with
      | none =>
          rw [chain_of_none hc hnext]
          exact ⟨0, Nat.zero_le _, .done ((hkind ts).trans hnext)⟩
      | some b =>
          have hpos : 0 < ts.length := by
            rw [List.length_pos_iff]
            rintro rfl
            rw [firstKind_nil, hstop] at hnext
            cases hnext
          rw [chain_of_some hc hstop hbody hnext]
          cases hround : body a b (c.facing ts) with
          | error e d =>
              rw [bind_of_error hround]
              exact ⟨1, hpos, .fails ((hkind ts).trans hnext) hround⟩
          | ok a' d =>
              obtain ⟨us, rfl, hlt⟩ := hbody hnext hround
              obtain ⟨n, hn, hrest⟩ := ih us.length hlt us a' rfl
              rw [bind_of_ok hround]
              exact ⟨n + 1, Nat.lt_of_le_of_lt hn hlt, .more ((hkind ts).trans hnext) hround hrest⟩

end Parse

/-- The loops of the parsers. -/
inductive Loop where
  /-- The operators behind an operand, each with its right operand. -/
  | operators (p : Precedence)
  /-- The calls, subscripts and members behind an atom. -/
  | suffixes
  /-- The expressions behind the commas of a list. -/
  | expressions
  /-- The parameters behind the commas of a list. -/
  | parameters
  /-- The names behind the commas of an import. -/
  | names
  /-- The branches of a conditional behind the first one. -/
  | branches
  /-- The statements in front of a token of kind `close` or the end. -/
  | statements (close : Kind)
  | newlines

namespace Loop

open Parse

/-- What has been put together after some rounds. Lists grow at the front. -/
abbrev State : Loop → Type
  | operators _ | suffixes => Expr
  | expressions => List Expr
  | parameters => List Parameter
  | names => List String
  | branches => List Branch
  | statements _ => List Stmt
  | newlines => Unit

/-- What is found at the cursor to go on with. -/
abbrev Cue : Loop → Type
  | operators _ => BinaryOp
  | suffixes => Suffix
  | _ => Unit

def next? : (loop : Loop) → Kind → Option loop.Cue
  | operators p => Kind.binaryOpAbove? p
  | suffixes => Kind.suffix?
  | expressions | parameters | names => while? (· = .mark .comma)
  | branches => while? (· = .keyword .elifKw)
  | statements close => while? fun k ↦ k ≠ close && k ≠ .eof
  | newlines => while? (· = .newline)

def round (l : Level) : (loop : Loop) → loop.State → loop.Cue → Parse loop.State
  | operators _ => fun left op ↦ do
      discard advance
      let right ← l.expr op.precedence.rightOperand
      return .binary left.position op left right
  | suffixes => suffix l.expression
  | expressions => oneMore do
      discard advance
      l.expression
  | parameters => oneMore do
      discard advance
      l.parameter
  | names => oneMore do
      discard advance
      identifier
  | branches => oneMore do
      discard advance
      l.branch
  | statements _ => oneMore l.item
  | newlines => fun _ _ ↦ discard advance

/-- The loop as the parsers run it. -/
def run (l : Level) : (loop : Loop) → loop.State → Parse loop.State
  | newlines, _ => skipNewlines
  | loop, a => chain loop.next? (loop.round l) a

example (l : Level) (p : Precedence) : l.climb p = l.operand >>= (operators p).run l := rfl

example (l : Level) : suffixed l.expression = atom l.expression >>= suffixes.run l := rfl

example (l : Level) (close : Kind) :
    l.statements close = (statements close).run l [] >>= fun ss ↦ return ss.reverse := rfl

example (l : Level) : commaSeparated l.parameter = (do
    let first ← l.parameter
    let others ← parameters.run l [] >>= fun found ↦ return found.reverse
    return first :: others) := rfl

theorem next?_eof (loop : Loop) : loop.next? .eof = none := by
  cases loop with
  | statements close => simp [next?, while?]
  | _ => rfl

theorem progresses_newlines (c : Cursor) :
    Progresses (while? (· = .newline)) (fun (_ : Unit) _ ↦ discard advance) c := by
  intro _ _ ts _ d hnext hround
  cases ts with
  | nil => cases hnext
  | cons t us =>
      cases hround
      exact ⟨us, rfl, Nat.lt_succ_self _⟩

variable {c : Cursor} (hc : c.stop.kind = .eof)

include hc

/-- Skipping line breaks is such a loop too. -/
theorem chain_newlines (ts : List Token) :
    chain (while? (· = .newline)) (fun (_ : Unit) _ ↦ discard advance) () (c.facing ts) =
      skipNewlines (c.facing ts) := by
  show _ = EStateM.Result.ok () (c.facing (skipBreaks ts))
  induction ts with
  | nil => exact chain_of_none hc rfl ()
  | cons t us ih =>
      by_cases ht : t.kind = .newline
      · have hnext : while? (· = .newline) (firstKind (t :: us)) = some () :=
          if_pos (decide_eq_true ht)
        rw [chain_of_some hc rfl (progresses_newlines c) hnext, discard_bind,
          advance_bind_cons, ih, skipBreaks_cons_of_eq ht]
      · have hnext : while? (· = .newline) (firstKind (t :: us)) = none :=
          if_neg fun h ↦ ht (of_decide_eq_true h)
        rw [chain_of_none hc hnext, skipBreaks_cons_of_ne ht]

theorem progresses (loop : Loop) (r : Nat) :
    Progresses loop.next? (loop.round (Level.ofRoom r)) c := by
  have hlevel := Level.ofRoom_readsPhrases c.mode r
  have hproper : c.Proper c.mode := ⟨hc, rfl⟩
  cases loop with
  | operators p =>
      intro left op ts e d hnext hround
      cases ts with
      | nil => cases hnext
      | cons t us =>
          replace hround : (discard advance >>= _) (c.facing (t :: us)) = _ := hround
          rw [discard_bind, advance_bind_cons] at hround
          obtain ⟨right, n, vs, -, hread, hround⟩ := (hlevel.expr _).exists_of_bind hproper hround
          obtain ⟨-, rfl⟩ := eq_of_pure_eq_ok hround
          exact ⟨vs, rfl, Nat.lt_succ_of_lt (hread.1.length_lt nofun)⟩
  | suffixes =>
      intro e form ts e' d hnext hround
      have hexpression := hlevel.expression.imp (T := Expr.Reads) fun _ _ _ _ h ↦ h.1
      obtain ⟨us, hlt, hd, -⟩ := suffix_sound hexpression hproper hnext hround
      exact ⟨us, hd, hlt⟩
  | expressions =>
      have hconsumes := (Phrase.nested_consumes .lowest).before (Stops .lowest)
      exact ((hlevel.expression.advances hconsumes hproper _).behind (by decide)).progresses
  | parameters =>
      have hparameter := Level.parameter_sound hlevel
      exact ((hparameter.advances Parameter.Reads.consumes hproper _).behind
        (by decide)).progresses
  | names =>
      have hname : Sound c.mode identifier (Named Token.lexeme) r := identifier_sound
      exact ((hname.advances (Named.consumes _) hproper _).behind (by decide)).progresses
  | branches => exact ((Part.branch_advances hc).behind (by decide)).progresses
  | statements close => exact (Part.item_advances hc _).progresses
  | newlines => exact progresses_newlines c

/-- Every loop ends by itself, in no more rounds than there are tokens ahead. -/
theorem rounds (loop : Loop) (r : Nat) (a : loop.State) : ∃ n ≤ c.ahead.length,
    Rounds loop.next? (loop.round (Level.ofRoom r)) n a c (loop.run (Level.ofRoom r) a c) := by
  have hchain := chain_rounds hc loop.next?_eof (progresses hc loop r) c.ahead a
  rw [Cursor.facing_ahead_self] at hchain
  cases loop with
  | newlines =>
      have hskip := chain_newlines hc c.ahead
      rw [Cursor.facing_ahead_self] at hskip
      show ∃ n ≤ c.ahead.length, Rounds _ _ n () c (skipNewlines c)
      rw [← hskip]
      exact hchain
  | _ => exact hchain

end Loop
end Offside
