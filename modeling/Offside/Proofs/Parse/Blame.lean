import Offside.Proofs.Parse.CompareLevel
import Offside.Proofs.Parse.Program

/-!
# The token to blame

Whatever a parser rejects, it rejects a token that it can see: one that cannot stand where it
stands, one whose text has no value, or the first one of something that is nested too deeply. The
fault has the position of that token.
-/

namespace Offside

/-- A parser that rejects the token reports this fault. -/
inductive Token.Blamed (t : Token) : Fault → Prop
  | unexpected (k : Kind) : Blamed t ⟨.unexpectedToken k t.describe, t.position⟩
  | noExpression : Blamed t ⟨.expectedExpression t.describe, t.position⟩
  | noValue {cause : Cause} (h : Expr.ofToken t = .error cause) : Blamed t ⟨cause, t.position⟩
  | tooDeep (limit : Nat) : Blamed t ⟨.nestingTooDeep limit, t.position⟩

namespace Cursor

/-- `P` holds of all tokens that a parser can see. -/
structure Sees (P : Token → Prop) (c : Cursor) : Prop where
  stop : P c.stop
  ahead : ∀ t ∈ c.ahead, P t

variable {P : Token → Prop} {c : Cursor}

theorem Sees.current (hc : c.Sees P) : P c.current := by
  obtain ⟨_ | ⟨t, ts⟩, stop, beyond, depth, limit, mode⟩ := c
  · exact hc.stop
  · exact hc.ahead t List.mem_cons_self

theorem Sees.facing (hc : c.Sees P) {us : List Token} (h : us <:+ c.ahead) :
    (c.facing us).Sees P :=
  ⟨hc.stop, fun t ht ↦ hc.ahead t (h.mem ht)⟩

theorem Sees.deepen (hc : c.Sees P) : c.deepen.Sees P :=
  ⟨hc.stop, hc.ahead⟩

theorem Sees.surface (hc : c.Sees P) : c.surface.Sees P :=
  ⟨hc.stop, hc.ahead⟩

end Cursor

namespace Parse

variable {α β γ σ : Type} {P : Token → Prop}

/-- A run sees only tokens of which `P` holds, and if it fails it rejects one of them. -/
inductive Reported (P : Token → Prop) : EStateM.Result Fault Cursor α → Prop
  | ok {a : α} {d : Cursor} (hd : d.Sees P) : Reported P (.ok a d)
  | error {f : Fault} {d : Cursor} {t : Token} (ht : P t) (h : t.Blamed f) :
      Reported P (.error f d)

/-- All runs of the parser. -/
def Blames (P : Token → Prop) (p : Parse α) : Prop :=
  ∀ ⦃c : Cursor⦄, c.Sees P → Reported P (p c)

theorem Blames.bind {p : Parse α} {f : α → Parse β} (hp : Blames P p) (hf : ∀ a, Blames P (f a)) :
    Blames P (p >>= f) := by
  intro c hc
  have hrun := hp hc
  rw [bind_eq]
  generalize p c = x at hrun ⊢
  cases hrun with
  | ok hd => exact hf _ hd
  | error ht h => exact .error ht h

theorem blames_pure (a : α) : Blames P (pure a : Parse α) :=
  fun _ hc ↦ .ok hc

theorem Blames.map {p : Parse α} (hp : Blames P p) (g : α → β) : Blames P (g <$> p) := by
  rw [map_eq_pure_bind]
  exact hp.bind fun a ↦ blames_pure (g a)

protected theorem Blames.discard {p : Parse α} (hp : Blames P p) :
    Blames P (discard p : Parse Unit) :=
  hp.map _

/-! The primitives. -/

theorem kind_bind_blames {f : Kind → Parse β} (hf : ∀ k, Blames P (f k)) :
    Blames P (kind >>= f) :=
  fun c hc ↦ hf c.current.kind hc

theorem position_bind_blames {f : Position → Parse β} (hf : ∀ p, Blames P (f p)) :
    Blames P (position >>= f) :=
  fun c hc ↦ hf c.current.position hc

theorem advance_bind_blames {f : Token → Parse β} (hf : ∀ t, P t → Blames P (f t)) :
    Blames P (advance >>= f) := by
  intro c hc
  obtain ⟨_ | ⟨t, ts⟩, stop, beyond, depth, limit, mode⟩ := c
  · exact hf stop hc.stop hc
  · exact hf t (hc.ahead t List.mem_cons_self) (hc.facing (List.suffix_cons t ts))

theorem blames_advance : Blames P advance := by
  rw [← bind_pure advance]
  exact advance_bind_blames fun t _ ↦ blames_pure t

theorem blames_skipNewlines : Blames P skipNewlines :=
  fun _ hc ↦ .ok (hc.facing (List.dropWhile_suffix _))

theorem blames_expect (k : Kind) : Blames P (expect k) := by
  intro c hc
  rw [expect_eq]
  split
  · exact blames_advance hc
  · exact .error hc.current (.unexpected k)

theorem blames_identifier : Blames P identifier :=
  (blames_expect .identifier).bind fun t ↦ blames_pure t.lexeme

theorem blames_entering {inner : Option σ} {p : σ → Parse α}
    (hp : ∀ s, inner = some s → Blames P (p s)) : Blames P (entering inner p) := by
  intro c hc
  have hfault : Reported P
      (.error ⟨.nestingTooDeep c.limit, c.current.position⟩ c.deepen : EStateM.Result _ _ α) :=
    .error hc.current (.tooDeep c.limit)
  cases inner with
  | none =>
      rw [entering_none]
      exact hfault
  | some s =>
      by_cases hroom : c.depth < c.limit
      · have hrun := hp s rfl hc.deepen
        rw [entering_some s p hroom]
        generalize p s c.deepen = x at hrun ⊢
        cases hrun with
        | ok hd => exact .ok hd.surface
        | error ht h => exact .error ht h
      · rw [entering_of_le _ _ (Nat.le_of_not_lt hroom)]
        exact hfault

/-! Repetitions. -/

theorem blames_chain {next? : Kind → Option β} {body : α → β → Parse α}
    (hbody : ∀ a b, Blames P (body a b)) (a : α) : Blames P (chain next? body a) := by
  have hwithin (bound : List Token) (a : α) : Blames P (chainWithin next? body bound a) := by
    induction bound generalizing a with
    | nil => exact blames_pure a
    | cons t bound ih =>
        apply kind_bind_blames
        intro k
        split
        · exact blames_pure a
        · exact (hbody a _).bind ih
  exact fun c hc ↦ hwithin c.ahead a hc

theorem blames_many {q : Kind → Bool} {item : Parse α} (hitem : Blames P item) :
    Blames P (many q item) := by
  apply (blames_chain (fun found _ ↦ ?_) []).bind
  · exact fun found ↦ blames_pure found.reverse
  · exact hitem.bind fun a ↦ blames_pure (a :: found)

theorem Blames.after_advance {p : Parse α} (hp : Blames P p) :
    Blames P (do discard advance; p) :=
  blames_advance.discard.bind fun _ ↦ hp

theorem blames_commaSeparated {p : Parse α} (hp : Blames P p) : Blames P (commaSeparated p) := by
  apply hp.bind
  intro first
  apply (blames_many hp.after_advance).bind
  intro others
  exact blames_pure (first :: others)

theorem blames_listUntil (close : Kind) {p : Parse α} (hp : Blames P p) :
    Blames P (listUntil close p) := by
  apply kind_bind_blames
  intro k
  split
  · exact blames_pure []
  · exact blames_commaSeparated hp

theorem blames_after? (k : Kind) {p : Parse α} (hp : Blames P p) : Blames P (after? k p) := by
  apply kind_bind_blames
  intro j
  split
  · exact (hp.bind fun a ↦ blames_pure (some a)).after_advance
  · exact blames_pure none

/-! Expressions. -/

theorem blames_primary : Blames P primary := by
  apply advance_bind_blames
  intro t ht
  cases hread : Expr.ofToken t with
  | ok e => exact blames_pure e
  | error cause => exact fun c _ ↦ .error ht (.noValue hread)

section

variable {e : Parse Expr} (he : Blames P e)

include he

theorem blames_group : Blames P (group e) := by
  apply (blames_expect _).discard.bind
  intro _
  apply he.bind
  intro inner
  apply (blames_expect _).discard.bind
  intro _
  exact blames_pure inner

theorem blames_array : Blames P (array e) := by
  apply (blames_expect _).bind
  intro start
  apply (blames_listUntil _ he).bind
  intro elements
  apply (blames_expect _).discard.bind
  intro _
  exact blames_pure (Expr.array start.position elements)

theorem blames_atom : Blames P (atom e) := by
  intro c hc
  rw [atom, current_bind]
  cases c.current.kind.atomForm? with
  | none => exact .error hc.current .noExpression
  | some form =>
      cases form with
      | primary => exact blames_primary hc
      | group => exact blames_group he hc
      | array => exact blames_array he hc

theorem blames_suffix (callee : Expr) (form : Suffix) : Blames P (suffix e callee form) := by
  apply Blames.after_advance
  cases form with
  | call =>
      apply (blames_listUntil _ he).bind
      intro arguments
      apply (blames_expect _).discard.bind
      intro _
      exact blames_pure (Expr.call callee.position callee arguments)
  | subscript =>
      apply he.bind
      intro index
      apply (blames_expect _).discard.bind
      intro _
      exact blames_pure (Expr.subscript callee.position callee index)
  | member =>
      apply blames_identifier.bind
      intro name
      exact blames_pure (Expr.member callee.position callee name)

theorem blames_suffixed : Blames P (suffixed e) := by
  apply (blames_atom he).bind
  intro callee
  exact blames_chain (blames_suffix he) callee

end

/-! Statements without expressions. -/

theorem blames_typeRef : Blames P typeRef := by
  apply (blames_expect _).bind
  intro token
  exact blames_pure (TypeRef.mk token.lexeme false token.position)

theorem blames_localName? : Blames P localName? :=
  blames_after? _ blames_identifier

theorem blames_word : Blames P word := by
  apply blames_advance.bind
  intro token
  apply blames_skipNewlines.bind
  intro _
  split
  · exact blames_pure (Stmt.breaking token.position)
  · exact blames_pure (Stmt.continuing token.position)
  · exact blames_pure (Stmt.pass token.position)

theorem blames_importing : Blames P importing := by
  apply (blames_expect _).bind
  intro start
  apply blames_identifier.bind
  intro module
  apply blames_localName?.bind
  intro localName
  apply blames_skipNewlines.bind
  intro _
  exact blames_pure (Stmt.importing start.position module none localName)

theorem blames_fromImport : Blames P fromImport := by
  apply (blames_expect _).bind
  intro start
  apply blames_identifier.bind
  intro module
  apply (blames_expect _).discard.bind
  intro _
  apply (blames_commaSeparated blames_identifier).bind
  intro items
  apply blames_localName?.bind
  intro localName
  apply blames_skipNewlines.bind
  intro _
  exact blames_pure (Stmt.importing start.position module (some items) localName)

end Parse

namespace Level

open Parse

/-- The parsers that the level holds. -/
structure Blames (P : Token → Prop) (l : Level) : Prop where
  expr : ∀ p, Parse.Blames P (l.expr p)
  operand : Parse.Blames P l.operand
  block : Parse.Blames P l.block

namespace Blames

variable {P : Token → Prop} {l : Level} (hl : l.Blames P)

include hl

theorem climb (p : Precedence) : Parse.Blames P (l.climb p) := by
  apply hl.operand.bind
  intro first
  apply blames_chain
  intro left op
  apply Parse.Blames.after_advance
  apply (hl.expr op.precedence.rightOperand).bind
  intro right
  exact blames_pure (Expr.binary left.position op left right)

theorem prefixed (op : UnaryOp) : Parse.Blames P (l.prefixed op) := by
  apply blames_advance.bind
  intro token
  apply hl.operand.bind
  intro e
  exact blames_pure (Expr.unary token.position op e)

theorem body : Parse.Blames P l.body := by
  apply (blames_expect _).discard.bind
  intro _
  apply blames_skipNewlines.bind
  intro _
  exact hl.block

theorem parameter : Parse.Blames P l.parameter := by
  apply position_bind_blames
  intro position
  apply blames_identifier.bind
  intro name
  apply (blames_after? _ blames_typeRef).bind
  intro type
  apply (blames_after? _ (hl.expr .lowest)).bind
  intro default
  exact blames_pure (Parameter.mk name type default position)

theorem function : Parse.Blames P l.function := by
  apply (blames_expect _).bind
  intro start
  apply blames_identifier.bind
  intro name
  apply (blames_expect _).discard.bind
  intro _
  apply (blames_listUntil _ hl.parameter).bind
  intro parameters
  apply (blames_expect _).discard.bind
  intro _
  apply (blames_after? _ blames_typeRef).bind
  intro returns
  apply hl.body.bind
  intro body
  exact blames_pure (Stmt.fnDecl start.position name parameters returns body)

theorem binding : Parse.Blames P l.binding := by
  apply blames_advance.bind
  intro start
  apply blames_identifier.bind
  intro name
  apply (blames_after? _ blames_typeRef).bind
  intro type
  apply (blames_after? _ (hl.expr .lowest)).bind
  intro value
  apply blames_skipNewlines.bind
  intro _
  exact blames_pure (Stmt.varDecl start.position name (start.kind = .keyword .constKw) type value)

theorem branch : Parse.Blames P l.branch := by
  apply (hl.expr .lowest).bind
  intro condition
  apply hl.body.bind
  intro body
  exact blames_pure (Branch.mk condition body)

theorem conditional : Parse.Blames P l.conditional := by
  apply (blames_expect _).bind
  intro start
  apply hl.branch.bind
  intro first
  apply (blames_many hl.branch.after_advance).bind
  intro others
  apply (blames_after? _ hl.body).bind
  intro otherwise
  exact blames_pure (Stmt.conditional start.position (first :: others) otherwise)

theorem whileLoop : Parse.Blames P l.whileLoop := by
  apply (blames_expect _).bind
  intro start
  apply (hl.expr .lowest).bind
  intro condition
  apply hl.body.bind
  intro body
  exact blames_pure (Stmt.whileLoop start.position condition body)

theorem forLoop : Parse.Blames P l.forLoop := by
  apply (blames_expect _).bind
  intro start
  apply blames_identifier.bind
  intro name
  apply (blames_expect _).discard.bind
  intro _
  apply (hl.expr .lowest).bind
  intro iterable
  apply hl.body.bind
  intro body
  exact blames_pure (Stmt.forLoop start.position name iterable body)

theorem returning : Parse.Blames P l.returning := by
  have hrest (position : Position) (value : Option Expr) :
      Parse.Blames P (do skipNewlines; return Stmt.returning position value) := by
    apply blames_skipNewlines.bind
    intro _
    exact blames_pure (Stmt.returning position value)
  apply (blames_expect _).bind
  intro start
  apply kind_bind_blames
  intro k
  split
  · exact (blames_pure none).bind fun value ↦ hrest start.position value
  · exact ((hl.expr .lowest).map some).bind fun value ↦ hrest start.position value

theorem classDecl : Parse.Blames P l.classDecl := by
  apply (blames_expect _).bind
  intro start
  apply blames_identifier.bind
  intro name
  apply hl.body.bind
  intro body
  exact blames_pure (Stmt.classDecl start.position name body)

theorem simple : Parse.Blames P l.simple := by
  apply position_bind_blames
  intro position
  apply (hl.expr .lowest).bind
  intro e
  apply kind_bind_blames
  intro k
  split
  · next op _ =>
      apply Parse.Blames.after_advance
      apply (hl.expr .lowest).bind
      intro value
      apply blames_skipNewlines.bind
      intro _
      exact blames_pure (Stmt.assignment position e op value)
  · apply blames_skipNewlines.bind
    intro _
    exact blames_pure (Stmt.expression position e)

theorem formed (form : StatementForm) : Parse.Blames P (l.formed form) := by
  cases form with
  | function => exact hl.function
  | binding => exact hl.binding
  | conditional => exact hl.conditional
  | whileLoop => exact hl.whileLoop
  | forLoop => exact hl.forLoop
  | returning => exact hl.returning
  | word => exact blames_word
  | classDecl => exact hl.classDecl
  | importing => exact blames_importing
  | fromImport => exact blames_fromImport

theorem statement : Parse.Blames P l.statement := by
  apply blames_skipNewlines.bind
  intro _
  apply kind_bind_blames
  intro k
  split
  · exact hl.formed _
  · exact hl.simple

theorem statements (close : Kind) : Parse.Blames P (l.statements close) := by
  apply blames_many
  apply hl.statement.bind
  intro s
  apply blames_skipNewlines.bind
  intro _
  exact blames_pure s

theorem braced : Parse.Blames P l.braced := by
  apply Parse.Blames.after_advance
  apply blames_skipNewlines.bind
  intro _
  apply (hl.statements _).bind
  intro body
  apply (blames_expect _).discard.bind
  intro _
  apply blames_skipNewlines.bind
  intro _
  exact blames_pure body

theorem indented : Parse.Blames P l.indented := by
  rw [indented_eq]
  apply (blames_expect _).bind
  intro _
  apply (hl.statements _).bind
  intro body
  apply kind_bind_blames
  intro k c hc
  rw [get_bind]
  split
  · exact ((blames_expect .dedent).discard.bind fun _ ↦ blames_pure body) hc
  · exact blames_pure body hc

theorem blockBody : Parse.Blames P l.blockBody := by
  apply position_bind_blames
  intro position
  apply kind_bind_blames
  intro k
  split
  · exact hl.braced.bind fun body ↦ blames_pure (Block.mk position body)
  · exact hl.indented.bind fun body ↦ blames_pure (Block.mk position body)

end Blames

variable {P : Token → Prop}

theorem above_blames {inner : Option Level} (hinner : ∀ l, inner = some l → l.Blames P) :
    (above inner).Blames P := by
  have hexpr (p : Precedence) : Parse.Blames P ((above inner).expr p) :=
    blames_entering fun l hl ↦ (hinner l hl).climb p
  constructor
  · exact hexpr
  · apply kind_bind_blames
    intro k
    split
    · exact blames_entering fun l hl ↦ (hinner l hl).prefixed _
    · exact blames_suffixed (hexpr .lowest)
  · exact blames_entering fun l hl ↦ (hinner l hl).blockBody

theorem ofRoom_blames (r : Nat) : (ofRoom r).Blames P := by
  induction r with
  | zero => exact above_blames nofun
  | succ r ih =>
      apply above_blames
      rintro l ⟨⟩
      exact ih

end Level

/-- A program is rejected because of one of its tokens, or because of the end mark. -/
theorem exists_blamed_of_parse_eq_error {mode : Mode} {ts : List Token} {f : Fault}
    (h : parse mode ts = .error f) : ∃ t ∈ Cursor.sealTokens ts, t.Blamed f := by
  have hprogram : Parse.Blames (· ∈ Cursor.sealTokens ts) Parse.program := by
    apply Parse.blames_skipNewlines.bind
    intro _
    apply Parse.Blames.bind
    · exact fun c hc ↦ (Level.ofRoom_blames c.room).statements .eof hc
    · exact fun body ↦ Parse.blames_pure (Program.mk body Position.start)
  have hsees : (Cursor.ofTokens mode ts).Sees (· ∈ Cursor.sealTokens ts) := by
    rw [Cursor.sealTokens_eq mode ts]
    refine ⟨by simp, fun t ht ↦ List.mem_append_left _ ?_⟩
    rwa [Cursor.ofTokens_eq] at ht
  have hrun := hprogram hsees
  rw [parse, Parse.apply] at h
  generalize Parse.program (Cursor.ofTokens mode ts) = x at h hrun
  cases hrun with
  | ok hd => cases h
  | error ht hblamed =>
      cases h
      exact ⟨_, ht, hblamed⟩

end Offside
