import Offside.Proofs.Parse.AgreeLevel
import Offside.Proofs.Parse.CompleteProgram
import Offside.Proofs.Parse.Viable

/-!
# Levels that can be completed

Every parser of a level can be completed, from the expressions up to whole programs. The tokens
that complete one that has read nothing are the shortest thing that it accepts: a name is an
expression, and a block has no statements.
-/

namespace Offside

theorem Expr.found?_of_ofToken {t : Token} {cause : Cause}
    (hform : t.kind.atomForm? = some .primary) (h : Expr.ofToken t = .error cause) :
    cause.found? = none := by
  unfold ofToken at h
  repeat' split at h
  all_goals cases h
  case h_8 =>
    unfold Kind.atomForm? at hform
    split at hform <;> simp_all
  all_goals rfl

theorem Kind.Closes.ends {k : Kind} (h : k.Closes) (p : Precedence) : k.Ends p := by
  rcases h with rfl | rfl | rfl
  all_goals exact ⟨rfl, rfl⟩

theorem Kind.Closes.ne_mark {k : Kind} (h : k.Closes) {m : Mark} (hm : m ≠ .closeCurly) :
    k ≠ .mark m := by
  rintro rfl
  simp [Closes, hm] at h

theorem Kind.Closes.ne_keyword {k : Kind} (h : k.Closes) {w : Keyword} : k ≠ .keyword w := by
  rintro rfl
  simp [Closes] at h

namespace Parse

variable {c : Cursor} {r : Nat} {ts : List Token}

theorem primary_cons_of_ok {t : Token} {e : Expr} (h : Expr.ofToken t = .ok e) (c : Cursor)
    (us : List Token) : primary (c.facing (t :: us)) = .ok e (c.facing us) := by
  rw [primary, advance_bind_cons, h]
  rfl

theorem primary_steady (hform : (firstKind ts).atomForm? = some .primary) :
    SteadyAt c Kind.Any primary ts := by
  have hne : firstKind ts ≠ .eof := by
    intro heof
    rw [heof] at hform
    cases hform
  obtain ⟨t, us, rfl, -⟩ := exists_cons_of_firstKind rfl hne
  cases he : Expr.ofToken t with
  | ok e => exact .of_token (primary_cons_of_ok he)
  | error cause =>
      have hrun : primary (c.facing (t :: us)) = .error ⟨cause, t.position⟩ (c.facing us) := by
        rw [primary, advance_bind_cons, he]
        rfl
      unfold SteadyAt
      rw [hrun]
      exact .other (Expr.found?_of_ofToken hform he)

/-- The kind of the next token decides which atom is parsed. -/
theorem atom_eq (expression : Parse Expr) (hc : c.stop.kind = .eof) :
    atom expression (c.facing ts) = (match (firstKind ts).atomForm? with
      | some form => Phrase.atomOf expression form
      | none => reject (.expectedExpression (c.facing ts).current.describe) : Parse Expr)
        (c.facing ts) := by
  rw [atom, current_bind, Cursor.kind_current_facing ts hc]
  rcases (firstKind ts).atomForm? with _ | _ | _ | _ <;> rfl

section

variable {expression : Parse Expr}
  (he : Viable r true [.identifier] (Kind.Ends .lowest) expression)

include he

theorem group_viable :
    Viable r true [.mark .openParen, .identifier, .mark .closeParen] Kind.Any
      (group expression) := by
  refine (expect_viable (by decide)).discard.bind (fun _ ↦ ?_) (.any _ _)
  refine he.bind (d := false) (fun e ↦ ?_) (.cons (by decide))
  refine (expect_viable (by decide)).discard.bind (fun _ ↦ ?_) (.any _ _)
  exact pure_viable e

theorem array_viable :
    Viable r false [.mark .openBracket, .mark .closeBracket] Kind.Any (array expression) := by
  refine (expect_viable (by decide)).bind (fun start ↦ ?_) (.any _ _)
  refine (listUntil_viable he (by decide) (by decide)).bind (fun elements ↦ ?_) (.cons rfl)
  refine (expect_viable (by decide)).discard.bind (fun _ ↦ ?_) (.any _ _)
  exact pure_viable _

theorem atom_viable : Viable r false [.identifier] Kind.Any (atom expression) where
  steady c hc ts := by
    cases hform : (firstKind ts).atomForm? with
    | none =>
        refine SteadyAt.of_eq hc.stop (fun c' vs htwin hnext ↦ ?_)
          (reject_steady (.expectedExpression (c.facing ts).current.describe) rfl)
        rw [atom_eq expression htwin.stop, hnext.firstKind_eq, hform, hnext.current]
    | some form =>
        have hatom : SteadyAt c Kind.Any (Phrase.atomOf expression form) ts := by
          cases form with
          | primary => exact primary_steady hform
          | group => exact (group_viable he).steady hc ts
          | array => exact (array_viable he).steady hc ts
        refine SteadyAt.of_eq hc.stop (fun c' vs htwin hnext ↦ ?_) hatom
        rw [atom_eq expression htwin.stop, hnext.firstKind_eq, hform]
  succeeds c hc _ us _ := ⟨by decide, _, rfl⟩
  busy := nofun

/-- A suffix is a token and what can be completed behind it. -/
theorem suffix_eq_advance (e : Expr) (form : Suffix) : ∃ deep ks p,
    suffix expression e form = (do discard advance; p) ∧ Viable r deep ks Kind.Any p := by
  cases form with
  | call =>
      refine ⟨false, [.mark .closeParen], _, rfl, ?_⟩
      refine (listUntil_viable he (by decide) (by decide)).bind (fun arguments ↦ ?_) (.cons rfl)
      refine (expect_viable (by decide)).discard.bind (fun _ ↦ ?_) (.any _ _)
      exact pure_viable _
  | subscript =>
      refine ⟨true, [.identifier, .mark .closeBracket], _, rfl, ?_⟩
      refine he.bind (d := false) (fun index ↦ ?_) (.cons (by decide))
      refine (expect_viable (by decide)).discard.bind (fun _ ↦ ?_) (.any _ _)
      exact pure_viable _
  | member =>
      exact ⟨_, _, _, rfl, identifier_viable.bind (fun name ↦ pure_viable _) (.any _ _)⟩

theorem suffixed_viable :
    Viable r false [.identifier] (·.suffix? = none) (suffixed expression) := by
  refine (atom_viable he).bind (fun e ↦ ?_) (.any _ _)
  refine chain_viable rfl (fun c hc ↦ ?_) (fun e form ↦ ?_) (fun k hk ↦ ⟨hk, trivial⟩) e
  · intro e form ts e' d hform hround
    obtain ⟨deep, ks, p, heq, hp⟩ := suffix_eq_advance he e form
    rw [heq] at hround
    refine hp.steady.length_lt_after hc (fun heof ↦ ?_) hround
    rw [heof] at hform
    cases hform
  · obtain ⟨deep, ks, p, heq, hp⟩ := suffix_eq_advance he e form
    rw [heq]
    exact advance_steady.discard.bind (fun _ ↦ hp) (.any _ _)

end

theorem typeRef_viable : Viable r false [.identifier] Kind.Any typeRef := by
  refine (expect_viable (by decide)).bind (fun token ↦ ?_) (.any _ _)
  exact pure_viable _

theorem localName?_viable : Viable r false [] Kind.Closes localName? :=
  after?_viable identifier_viable fun _ hk ↦ ⟨hk.ne_keyword, trivial⟩

/-- The line breaks behind a statement. -/
theorem skipNewlines_return_viable {α : Type} (a : α) : Viable r false [] Kind.Closes (do
    skipNewlines
    return a) :=
  skipNewlines_viable.bind (fun _ ↦ pure_viable a) (.nil fun _ hk ↦ hk.ne_newline)

theorem word_viable : Viable r false [.keyword .passKw] Kind.Closes word := by
  refine (advance_viable (by decide)).bind (fun token ↦ ?_) (.any _ _)
  refine skipNewlines_viable.bind (fun _ ↦ ?_) (.nil fun k hk ↦ hk.ne_newline)
  split <;> exact pure_viable _

theorem importing_viable :
    Viable r false [.keyword .importKw, .identifier] Kind.Closes importing := by
  refine (expect_viable (by decide)).bind (fun start ↦ ?_) (.any _ _)
  refine identifier_viable.bind (fun module ↦ ?_) (.any _ _)
  refine localName?_viable.bind (fun localName ↦ ?_) (.nil fun k hk ↦ hk)
  exact skipNewlines_return_viable _

theorem fromImport_viable :
    Viable r false [.keyword .fromKw, .identifier, .keyword .importKw, .identifier] Kind.Closes
      fromImport := by
  have hitems : Viable r false [.identifier] Kind.Closes (commaSeparated identifier) :=
    commaSeparated_viable identifier_viable fun k hk ↦ ⟨hk.ne_mark (by decide), trivial⟩
  refine (expect_viable (by decide)).bind (fun start ↦ ?_) (.any _ _)
  refine identifier_viable.bind (fun module ↦ ?_) (.any _ _)
  refine (expect_viable (by decide)).discard.bind (fun _ ↦ ?_) (.any _ _)
  refine hitems.bind (fun items ↦ ?_) (.nil fun k hk ↦ hk)
  refine localName?_viable.bind (fun localName ↦ ?_) (.nil fun k hk ↦ hk)
  exact skipNewlines_return_viable _

end Parse

namespace Level

open Parse

/-- Every parser that the level holds can be completed. -/
structure Viable (l : Level) (r : Nat) : Prop where
  expr : ∀ p, Parse.Viable r true [.identifier] (Kind.Ends .lowest) (l.expr p)
  operand : Parse.Viable r false [.identifier] (Kind.Ends .lowest) l.operand
  block : Parse.Viable r true [.indent, .dedent] Kind.NoBreak l.block

section

variable {l : Level} {r : Nat} (hl : l.Viable r)

include hl

theorem climb_viable (p : Precedence) :
    Parse.Viable r false [.identifier] (Kind.Ends .lowest) (l.climb p) := by
  have hright (left : Expr) (op : BinaryOp) : Parse.Viable r true [.identifier]
      (Kind.Ends .lowest) (do
        let right ← l.expr op.precedence.rightOperand
        return Expr.binary left.position op left right) := by
    refine (hl.expr _).bind (d := false) (fun right ↦ ?_) (.nil fun k hk ↦ hk)
    exact pure_viable _
  refine hl.operand.bind (fun e ↦ ?_) (.nil fun k hk ↦ hk)
  refine chain_viable rfl (fun c hc ↦ ?_) (fun left op ↦ ?_) (fun k hk ↦ ⟨?_, hk⟩) e
  · intro left op ts e' d hop hround
    refine (hright left op).steady.length_lt_after hc (fun heof ↦ ?_) hround
    rw [heof] at hop
    cases hop
  · exact advance_steady.discard.bind (fun _ ↦ hright left op) (.any _ _)
  · exact (hk.mono (Nat.zero_le _)).2

theorem prefixed_viable (op : UnaryOp) :
    Parse.Viable r false [op.kind, .identifier] (Kind.Ends .lowest) (l.prefixed op) := by
  refine (advance_viable (by cases op <;> decide)).bind (fun token ↦ ?_) (.any _ _)
  refine hl.operand.bind (fun e ↦ ?_) (.nil fun k hk ↦ hk)
  exact pure_viable _

theorem body_viable : Parse.Viable r true [.mark .colon, .indent, .dedent] Kind.NoBreak l.body := by
  refine (expect_viable (by decide)).discard.bind (fun _ ↦ ?_) (.any _ _)
  refine skipNewlines_viable.bind (fun _ ↦ hl.block) (.cons nofun)

theorem parameter_viable : Parse.Viable r false [.identifier]
    (fun k ↦ k = .mark .comma ∨ k = .mark .closeParen) l.parameter := by
  refine position_viable.bind (fun position ↦ ?_) (.any _ _)
  refine identifier_viable.bind (fun name ↦ ?_) (.any _ _)
  refine (after?_viable typeRef_viable ?_).bind (fun type ↦ ?_) (.nil fun k hk ↦ hk)
  · rintro k (rfl | rfl) <;> exact ⟨by decide, trivial⟩
  refine (after?_viable (hl.expr .lowest) ?_).bind (fun default ↦ ?_)
    (.nil fun k hk ↦ hk)
  · rintro k (rfl | rfl) <;> exact ⟨by decide, by decide⟩
  exact pure_viable _

theorem function_viable : Parse.Viable r true [.keyword .defKw, .identifier, .mark .openParen,
    .mark .closeParen, .mark .colon, .indent, .dedent] Kind.NoBreak l.function := by
  refine (expect_viable (by decide)).bind (fun start ↦ ?_) (.any _ _)
  refine identifier_viable.bind (fun name ↦ ?_) (.any _ _)
  refine (expect_viable (by decide)).discard.bind (fun _ ↦ ?_) (.any _ _)
  refine (listUntil_viable (parameter_viable hl) (by decide) (.inr rfl)).bind (fun parameters ↦ ?_)
    (.cons rfl)
  refine (expect_viable (by decide)).discard.bind (fun _ ↦ ?_) (.any _ _)
  have hreturns : Parse.Viable r false [] (· = .mark .colon) (after? (.mark .arrow) typeRef) :=
    after?_viable typeRef_viable (by rintro k rfl; exact ⟨by decide, trivial⟩)
  refine hreturns.bind (fun returns ↦ ?_) (.cons rfl)
  refine (body_viable hl).bind (d := false) (fun body ↦ ?_) (.nil fun k hk ↦ hk)
  exact pure_viable _

theorem binding_viable :
    Parse.Viable r false [.keyword .letKw, .identifier] Kind.Closes l.binding := by
  refine (advance_viable (by decide)).bind (fun start ↦ ?_) (.any _ _)
  refine identifier_viable.bind (fun name ↦ ?_) (.any _ _)
  refine (after?_viable typeRef_viable ?_).bind (fun type ↦ ?_) (.nil fun k hk ↦ hk)
  · exact fun k hk ↦ ⟨hk.ne_mark (by decide), trivial⟩
  refine (after?_viable (hl.expr .lowest) ?_).bind (fun value ↦ ?_) (.nil fun k hk ↦ hk)
  · exact fun k hk ↦ ⟨hk.ne_mark (by decide), hk.ends .lowest⟩
  exact skipNewlines_return_viable _

theorem branch_viable : Parse.Viable r true [.identifier, .mark .colon, .indent, .dedent]
    Kind.NoBreak l.branch := by
  refine (hl.expr .lowest).bind (d := true) (fun condition ↦ ?_) (.cons (by decide))
  refine (body_viable hl).bind (d := false) (fun body ↦ ?_) (.nil fun k hk ↦ hk)
  exact pure_viable _

theorem conditional_viable : Parse.Viable r true [.keyword .ifKw, .identifier, .mark .colon,
    .indent, .dedent] Kind.Closes l.conditional := by
  have helif : Steady r Kind.NoBreak (do
      discard advance
      l.branch) := advance_steady.discard.bind (fun _ ↦ branch_viable hl) (.any _ _)
  have hothers : Parse.Viable r false [] Kind.Closes (many (· = .keyword .elifKw) (do
      discard advance
      l.branch)) :=
    many_viable rfl (fun c hc ↦ (branch_viable hl).steady.advances_after rfl hc) helif
      fun k hk ↦ ⟨decide_eq_false hk.ne_keyword, hk.ne_newline⟩
  have hotherwise : Parse.Viable r false [] Kind.Closes (after? (.keyword .elseKw) l.body) :=
    after?_viable (body_viable hl) fun k hk ↦ ⟨hk.ne_keyword, hk.ne_newline⟩
  refine (expect_viable (by decide)).bind (fun start ↦ ?_) (.any _ _)
  refine (branch_viable hl).bind (d := false) (fun first ↦ ?_) (.nil fun k hk ↦ hk.ne_newline)
  refine hothers.bind (fun others ↦ ?_) (.nil fun k hk ↦ hk)
  refine hotherwise.bind (fun otherwise ↦ ?_) (.nil fun k hk ↦ hk)
  exact pure_viable _

theorem whileLoop_viable : Parse.Viable r true [.keyword .whileKw, .identifier, .mark .colon,
    .indent, .dedent] Kind.NoBreak l.whileLoop := by
  refine (expect_viable (by decide)).bind (fun start ↦ ?_) (.any _ _)
  refine (hl.expr .lowest).bind (d := true) (fun condition ↦ ?_) (.cons (by decide))
  refine (body_viable hl).bind (d := false) (fun body ↦ ?_) (.nil fun k hk ↦ hk)
  exact pure_viable _

theorem forLoop_viable : Parse.Viable r true [.keyword .forKw, .identifier, .keyword .inKw,
    .identifier, .mark .colon, .indent, .dedent] Kind.NoBreak l.forLoop := by
  refine (expect_viable (by decide)).bind (fun start ↦ ?_) (.any _ _)
  refine identifier_viable.bind (fun name ↦ ?_) (.any _ _)
  refine (expect_viable (by decide)).discard.bind (fun _ ↦ ?_) (.any _ _)
  refine (hl.expr .lowest).bind (d := true) (fun iterable ↦ ?_) (.cons (by decide))
  refine (body_viable hl).bind (d := false) (fun body ↦ ?_) (.nil fun k hk ↦ hk)
  exact pure_viable _

/-- Nothing is returned in front of a line break. -/
theorem returning_viable : Parse.Viable r false [.keyword .returnKw, .newline] Kind.Closes
    l.returning := by
  have hrest (ks : List Kind) (hks : ∀ k ∈ ks, k = .newline) (position : Position)
      (value : Option Expr) : Parse.Viable r false ks Kind.Closes (do
        skipNewlines
        return Stmt.returning position value) := by
    have hreturn := (skipNewlines_viable_of (r := r) hks).bind
      (fun _ ↦ pure_viable (Stmt.returning position value)) (.nil fun k hk ↦ hk)
    rw [List.append_nil] at hreturn
    exact hreturn.mono fun k hk ↦ hk.ne_newline
  refine (expect_viable (by decide)).bind (fun start ↦ ?_) (.any _ _)
  apply kind_bind_viable
  · intro k
    split
    · exact (pure_viable none).steady.bind (hrest [] nofun _) (.nil fun k hk ↦ hk)
    · exact ((hl.expr .lowest).map some).steady.bind (hrest [] nofun _) (.nil fun k hk ↦ hk.ends _)
  · intro us _
    have hbreak := (pure_viable none).bind (hrest [.newline] (by simp) start.position)
      (.any _ _)
    exact hbreak.toFresh

theorem classDecl_viable : Parse.Viable r true [.keyword .classKw, .identifier, .mark .colon,
    .indent, .dedent] Kind.NoBreak l.classDecl := by
  refine (expect_viable (by decide)).bind (fun start ↦ ?_) (.any _ _)
  refine identifier_viable.bind (fun name ↦ ?_) (.any _ _)
  refine (body_viable hl).bind (d := false) (fun body ↦ ?_) (.nil fun k hk ↦ hk)
  exact pure_viable _

theorem simple_viable : Parse.Viable r true [.identifier] Kind.Closes l.simple := by
  have hvalue (position : Position) (e : Expr) (op : AssignOp) :
      Parse.Viable r true [.identifier] Kind.Closes (do
        let value ← l.expression
        skipNewlines
        return Stmt.assignment position e op value) := by
    refine (hl.expr .lowest).bind (d := false) (fun value ↦ ?_) (.nil fun k hk ↦ hk.ends _)
    exact skipNewlines_return_viable _
  refine position_viable.bind (fun position ↦ ?_) (.any _ _)
  refine (hl.expr .lowest).bind (d := false) (fun e ↦ ?_) (.nil fun k hk ↦ hk.ends _)
  apply kind_bind_viable
  · intro k
    split
    · exact advance_steady.discard.bind (fun _ ↦ hvalue _ _ _) (.any _ _)
    · exact (skipNewlines_return_viable _).steady
  · intro us hus
    have hfirst : (firstKind (tokensOf [] ++ us)).assignOp? = none := by
      rcases hus with hus | hus | hus
      all_goals exact congrArg Kind.assignOp? hus
    rw [hfirst]
    exact (skipNewlines_return_viable _).toFresh

theorem formed_steady (form : StatementForm) : Steady r Kind.Closes (l.formed form) := by
  cases form with
  | function => exact (function_viable hl).steady.mono fun k hk ↦ hk.ne_newline
  | binding => exact (binding_viable hl).steady
  | conditional => exact (conditional_viable hl).steady
  | whileLoop => exact (whileLoop_viable hl).steady.mono fun k hk ↦ hk.ne_newline
  | forLoop => exact (forLoop_viable hl).steady.mono fun k hk ↦ hk.ne_newline
  | returning => exact (returning_viable hl).steady
  | word => exact word_viable.steady
  | classDecl => exact (classDecl_viable hl).steady.mono fun k hk ↦ hk.ne_newline
  | importing => exact importing_viable.steady
  | fromImport => exact fromImport_viable.steady

/-- The shortest statement needs no level to be opened. -/
theorem statement_viable :
    Parse.Viable r false [.keyword .passKw] Kind.Closes l.statement := by
  refine skipNewlines_viable.bind (fun _ ↦ ?_) (.cons nofun)
  apply kind_bind_viable
  · intro k
    split
    · exact formed_steady hl _
    · exact (simple_viable hl).steady
  · exact fun us hus ↦ word_viable.toFresh

theorem item_steady : Steady r Kind.Closes l.item :=
  (statement_viable hl).steady.bind skipNewlines_return_viable (.nil fun _ hk ↦ hk)

end

/-- In lenient parsing the end closes a block too. -/
theorem closing_viable {r : Nat} (ss : List Stmt) :
    Parse.Viable r false [.dedent] Kind.Any (closing ss) where
  steady c hc ts := by
    have hrun (c' : Cursor) (vs : List Token) (htwin : c.Twin c') (hnext : c.SameNext ts c' vs) :
        closing ss (c'.facing vs) =
          (if firstKind ts = .dedent || c.mode.isStrict then
            (do discard (expect .dedent); return ss) else return ss : Parse (List Stmt))
            (c'.facing vs) := by
      rw [closing, kind_bind htwin.stop, get_bind, Cursor.mode_facing, htwin.mode,
        hnext.firstKind_eq]
    refine SteadyAt.of_eq hc.stop hrun ?_
    split
    · have hdedent := (expect_viable (r := r) (k := .dedent) (by decide)).discard
      exact hdedent.steady.bind (fun _ ↦ pure_viable ss) (.any _ _) hc ts
    · exact (pure_viable ss).steady hc ts
  succeeds c hc _ us _ := ⟨by decide, ss, closing_of_dedent ss rfl rfl⟩
  busy := nofun

section

variable {r : Nat} (hl : (ofRoom r).Viable r)

include hl

theorem statements_viable {close : Kind} (hclose : close.Closes) :
    Parse.Viable r false [] (fun k ↦ k = close ∨ k = .eof) ((ofRoom r).statements close) := by
  rw [statements_eq]
  refine many_viable (by simp) (fun c hc ↦ Part.item_advances hc.stop _) (item_steady hl) ?_
  rintro k (rfl | rfl)
  · exact ⟨by simp, hclose⟩
  · exact ⟨by simp, .inr (.inr rfl)⟩

theorem braced_viable : Parse.Viable r false [.mark .openCurly, .mark .closeCurly] Kind.NoBreak
    (ofRoom r).braced := by
  refine (advance_viable (by decide)).discard.bind (fun _ ↦ ?_) (.any _ _)
  refine skipNewlines_viable.bind (fun _ ↦ ?_) (.cons nofun)
  refine (statements_viable hl (.inl rfl)).bind (fun body ↦ ?_) (.cons (.inl rfl))
  refine (expect_viable (by decide)).discard.bind (fun _ ↦ ?_) (.any _ _)
  refine skipNewlines_viable.bind (fun _ ↦ ?_) (.nil fun k hk ↦ hk)
  exact pure_viable body

theorem indented_viable :
    Parse.Viable r false [.indent, .dedent] Kind.Any (ofRoom r).indented := by
  rw [indented_eq]
  refine (expect_viable (by decide)).bind (fun _ ↦ ?_) (.any _ _)
  refine (statements_viable hl (.inr (.inl rfl))).bind (fun body ↦ ?_) (.cons (.inl rfl))
  exact closing_viable body

theorem blockBody_viable :
    Parse.Viable r false [.indent, .dedent] Kind.NoBreak (ofRoom r).blockBody := by
  refine position_viable.bind (fun position ↦ ?_) (.any _ _)
  apply kind_bind_viable
  · intro k
    split
    · exact (braced_viable hl).steady.bind (fun body ↦ pure_viable _) (.nil fun k hk ↦ hk)
    · exact (indented_viable hl).steady.bind (fun body ↦ pure_viable _) (.any _ _)
  · intro us _
    have hblock : Parse.Viable r false [.indent, .dedent] Kind.NoBreak (do
        let body ← (ofRoom r).indented
        return Block.mk position body) :=
      (indented_viable hl).bind (fun body ↦ pure_viable _) (.any _ _)
    exact hblock.toFresh

end

theorem above_viable {r : Nat} (hinner : ∀ k, r = k + 1 → (ofRoom k).Viable k) :
    (ofRoom r).Viable r := by
  have hexpr (p : Precedence) :
      Parse.Viable r true [.identifier] (Kind.Ends .lowest) ((ofRoom r).expr p) := by
    rw [ofRoom_eq]
    refine entering_viable (fun k hk ↦ climb_viable (hinner k hk) p) fun c hc ↦ ?_
    have hsound := (ofRoom_readsPhrases c.mode r).expr p
    rw [ofRoom_eq] at hsound
    exact hsound.advances ((Phrase.nested_consumes p).before _) ⟨hc.stop, rfl⟩ _
  constructor
  · exact hexpr
  · have hatom := (suffixed_viable (hexpr .lowest)).mono fun k (hk : k.Ends .lowest) ↦ hk.1
    rw [ofRoom_eq] at hatom ⊢
    apply kind_bind_viable
    · intro k
      split
      · next op _ => exact entering_steady fun k hk ↦ (prefixed_viable (hinner k hk) op).steady
      · exact hatom.steady
    · exact fun us _ ↦ hatom.toFresh
  · rw [ofRoom_eq]
    refine entering_viable (fun k hk ↦ blockBody_viable (hinner k hk)) fun c hc ↦ ?_
    have hsound := @ofRoom_block_sound c.mode r
    rw [ofRoom_eq] at hsound
    refine hsound.advances ?_ ⟨hc.stop, rfl⟩ _
    intro b n ts us h
    exact h.length_lt (Layout.suffix_of_exact_gap c.mode) trivial

theorem ofRoom_viable (r : Nat) : (ofRoom r).Viable r := by
  induction r with
  | zero => exact above_viable nofun
  | succ r ih =>
      apply above_viable
      rintro k ⟨⟩
      exact ih

end Level

namespace Parse

variable {α : Type} {r : Nat} {F : Kind → Prop} {ks : List Kind}

theorem here_facing {c : Cursor} (hc : c.HasRoom r) (p : Level → Parse α) (ts : List Token) :
    here p (c.facing ts) = p (Level.ofRoom r) (c.facing ts) := by
  have hroom : (c.facing ts).room = r := hc.room_eq
  rw [here, get_bind, hroom]

theorem here_viable {p : Level → Parse α} {deep : Bool}
    (hp : Viable r deep ks F (p (Level.ofRoom r))) : Viable r deep ks F (here p) where
  steady c hc ts :=
    SteadyAt.of_eq hc.stop (fun _ vs htwin _ ↦ here_facing (hc.twin htwin) p vs) (hp.steady hc ts)
  succeeds c hc hroom us hus := by
    rw [here_facing hc]
    exact hp.succeeds hc hroom us hus
  busy hdeep c hc ts a := by
    rw [here_facing hc]
    exact hp.busy hdeep hc ts a

/-- No tokens at all are a program. -/
theorem program_viable (r : Nat) : Viable r false [] (· = .eof) program := by
  have heof : Kind.Closes .eof := .inr (.inr rfl)
  have hstatements := Level.statements_viable (Level.ofRoom_viable r) heof
  have hbody : Viable r false [] (· = .eof) (here (·.statements .eof)) :=
    here_viable (hstatements.mono fun _ ↦ .inl)
  refine skipNewlines_viable.bind (fun _ ↦ ?_) (.nil fun k hk ↦ ?_)
  · exact hbody.bind (fun body ↦ pure_viable _) (.nil fun k hk ↦ hk)
  · rw [hk]
    exact nofun

end Parse
end Offside
