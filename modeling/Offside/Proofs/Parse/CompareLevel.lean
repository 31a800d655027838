import Offside.Proofs.Parse.Compare

/-!
# Comparing levels

Two levels compare if the parsers that they hold do. Then so do all parsers that are made from
them, up to statements and the bodies of blocks. Two things are left to the comparison at hand:
an indented block, whose end depends on the mode, unless the comparison is uniform, and the
opening of a level.
-/

namespace Offside

/-- What is looked up for neither an indent nor a dedent. -/
theorem Kind.rise_of_eq_some {γ : Type} {g : Kind → Option γ} (hindent : g .indent = none)
    (hdedent : g .dedent = none) {k : Kind} {b : γ} (h : g k = some b) : k.rise = 0 := by
  cases k with
  | indent => simp [hindent] at h
  | dedent => simp [hdedent] at h
  | _ => rfl

theorem Expr.isLocal_of_ofToken {t : Token} {cause : Cause} (h : Expr.ofToken t = .error cause) :
    cause.IsLocal := by
  unfold ofToken at h
  repeat' split at h
  all_goals cases h
  all_goals trivial

namespace Comparison

open Parse

variable {C : Comparison} {k : Kind}

theorem rel_primary (hadvance : C.Rel (Token.mapPosition C.place) k advance advance) :
    C.Rel (Expr.mapPositions C.place) k primary primary := by
  apply C.rel_bind hadvance
  intro token
  rw [Expr.ofToken_mapPosition]
  cases hread : Expr.ofToken token with
  | ok e => exact same_pure e
  | error cause => exact fun _ ↦ C.rel_throw (Expr.isLocal_of_ofToken hread)

section

variable {e e' : Parse Expr} (he : C.Same (Expr.mapPositions C.place) e e')

include he

theorem same_group : C.Same (Expr.mapPositions C.place) (group e) (group e') := by
  apply (same_expect rfl).discard.bind
  intro _
  apply he.bind
  intro inner
  apply (same_expect rfl).discard.bind
  intro _
  exact same_pure inner

theorem same_array : C.Same (Expr.mapPositions C.place) (array e) (array e') := by
  apply (same_expect rfl).bind
  intro start
  apply (same_listUntil _ he).bind
  intro elements
  apply (same_expect rfl).discard.bind
  intro _
  rw [← Expr.mapAllPositions_eq_map]
  exact same_pure (Expr.array start.position elements)

theorem same_atom : C.Same (Expr.mapPositions C.place) (atom e) (atom e') := by
  intro k
  apply C.rel_current
  intro token hk
  rw [Token.kind_mapPosition]
  split
  · next hform =>
      rw [hk] at hform
      have hrise : k.rise = 0 := Kind.rise_of_eq_some (g := Kind.atomForm?) rfl rfl hform
      exact rel_primary (C.rel_advance hrise)
  · exact same_group he k
  · exact same_array he k
  · have hcause : (Cause.expectedExpression token.describe).IsLocal := trivial
    exact same_reject hcause k

theorem rel_suffix (callee : Expr) {form : Suffix} (hk : k.suffix? = some form) :
    C.Rel (Expr.mapPositions C.place) k (suffix e callee form)
      (suffix e' (callee.mapPositions C.place) form) := by
  have hrise : k.rise = 0 := Kind.rise_of_eq_some (g := Kind.suffix?) rfl rfl hk
  apply C.rel_bind (Comparison.discard (C.rel_advance hrise))
  intro _
  cases form with
  | call =>
      apply (same_listUntil _ he).bind
      intro arguments
      apply (same_expect rfl).discard.bind
      intro _
      rw [← Expr.mapAllPositions_eq_map, Expr.position_mapPositions]
      exact same_pure (Expr.call callee.position callee arguments)
  | subscript =>
      apply he.bind
      intro index
      apply (same_expect rfl).discard.bind
      intro _
      rw [Expr.position_mapPositions]
      exact same_pure (Expr.subscript callee.position callee index)
  | member =>
      apply same_identifier.bind
      intro name
      rw [Expr.position_mapPositions]
      exact same_pure (Expr.member callee.position callee name)

theorem same_suffixed : C.Same (Expr.mapPositions C.place) (suffixed e) (suffixed e') := by
  apply (same_atom he).bind
  intro callee
  apply same_chain
  intro callee form k hk
  exact rel_suffix he callee hk

end

theorem same_typeRef : C.Same (TypeRef.mapPositions C.place) typeRef typeRef := by
  apply (same_expect rfl).bind
  intro token
  exact same_pure (TypeRef.mk token.lexeme false token.position)

theorem same_localName? : C.Same id localName? localName? := by
  have h := same_after? (C := C) (j := .keyword .asKw) rfl same_identifier
  rwa [Option.map_id] at h

theorem rel_word (hadvance : C.Rel (Token.mapPosition C.place) k advance advance) :
    C.Rel (Stmt.mapPositions C.place) k word word := by
  apply C.rel_bind hadvance
  intro token
  apply same_skipNewlines.bind
  intro _
  rw [Token.kind_mapPosition]
  split
  · exact same_pure (Stmt.breaking token.position)
  · exact same_pure (Stmt.continuing token.position)
  · exact same_pure (Stmt.pass token.position)

theorem same_importing : C.Same (Stmt.mapPositions C.place) importing importing := by
  apply (same_expect rfl).bind
  intro start
  apply same_identifier.bind
  intro module
  apply same_localName?.bind
  intro localName
  apply same_skipNewlines.bind
  intro _
  exact same_pure (Stmt.importing start.position module none localName)

theorem same_fromImport : C.Same (Stmt.mapPositions C.place) fromImport fromImport := by
  have hitems := same_commaSeparated (same_identifier (C := C))
  rw [List.map_id_fun] at hitems
  apply (same_expect rfl).bind
  intro start
  apply same_identifier.bind
  intro module
  apply (same_expect rfl).discard.bind
  intro _
  apply hitems.bind
  intro items
  apply same_localName?.bind
  intro localName
  apply same_skipNewlines.bind
  intro _
  exact same_pure (Stmt.importing start.position module (some items) localName)

end Comparison

namespace Level

open Comparison Parse

/-- The parsers that the levels hold compare one by one. -/
structure Compares (C : Comparison) (l l' : Level) : Prop where
  expr : ∀ p, C.Same (Expr.mapPositions C.place) (l.expr p) (l'.expr p)
  operand : C.Same (Expr.mapPositions C.place) l.operand l'.operand
  block : C.Same (Block.mapPositions C.place) l.block l'.block

namespace Compares

variable {C : Comparison} {l l' : Level} (hl : l.Compares C l')

include hl

theorem climb (p : Precedence) :
    C.Same (Expr.mapPositions C.place) (l.climb p) (l'.climb p) := by
  apply hl.operand.bind
  intro first
  apply same_chain
  intro left op k hk
  have hrise : k.rise = 0 := Kind.rise_of_eq_some (g := Kind.binaryOpAbove? p) rfl rfl hk
  apply C.rel_bind (Comparison.discard (C.rel_advance hrise))
  intro _
  apply (hl.expr op.precedence.rightOperand).bind
  intro right
  rw [Expr.position_mapPositions]
  exact same_pure (Expr.binary left.position op left right)

theorem prefixed {k : Kind} {op : UnaryOp} (hk : k.unaryOp? = some op) :
    C.Rel (Expr.mapPositions C.place) k (l.prefixed op) (l'.prefixed op) := by
  have hrise : k.rise = 0 := Kind.rise_of_eq_some (g := Kind.unaryOp?) rfl rfl hk
  apply C.rel_bind (C.rel_advance hrise)
  intro token
  apply hl.operand.bind
  intro e
  exact same_pure (Expr.unary token.position op e)

theorem body : C.Same (Block.mapPositions C.place) l.body l'.body := by
  apply (same_expect rfl).discard.bind
  intro _
  apply same_skipNewlines.bind
  intro _
  exact hl.block

theorem parameter : C.Same (Parameter.mapPositions C.place) l.parameter l'.parameter := by
  have htype := same_after? (C := C) (j := .mark .colon) rfl same_typeRef
  have hdefault := same_after? (j := .mark .assign) rfl (hl.expr .lowest)
  intro k
  apply Comparison.position_bind
  intro position
  apply C.rel_bind (same_identifier k)
  intro name
  apply htype.bind
  intro type
  apply hdefault.bind
  intro default
  exact same_pure (Parameter.mk name type default position)

theorem function : C.Same (Stmt.mapPositions C.place) l.function l'.function := by
  have hreturns := same_after? (C := C) (j := .mark .arrow) rfl same_typeRef
  apply (same_expect rfl).bind
  intro start
  apply same_identifier.bind
  intro name
  apply (same_expect rfl).discard.bind
  intro _
  apply (same_listUntil _ hl.parameter).bind
  intro parameters
  apply (same_expect rfl).discard.bind
  intro _
  apply hreturns.bind
  intro returns
  apply hl.body.bind
  intro body
  exact same_pure (Stmt.fnDecl start.position name parameters returns body)

theorem binding {k : Kind} (hadvance : C.Rel (Token.mapPosition C.place) k advance advance) :
    C.Rel (Stmt.mapPositions C.place) k l.binding l'.binding := by
  have htype := same_after? (C := C) (j := .mark .colon) rfl same_typeRef
  have hvalue := same_after? (j := .mark .assign) rfl (hl.expr .lowest)
  apply C.rel_bind hadvance
  intro start
  apply same_identifier.bind
  intro name
  apply htype.bind
  intro type
  apply hvalue.bind
  intro value
  apply same_skipNewlines.bind
  intro _
  exact same_pure (Stmt.varDecl start.position name (start.kind = .keyword .constKw) type value)

theorem branch : C.Same (Branch.mapPositions C.place) l.branch l'.branch := by
  apply (hl.expr .lowest).bind
  intro condition
  apply hl.body.bind
  intro body
  exact same_pure (Branch.mk condition body)

theorem conditional : C.Same (Stmt.mapPositions C.place) l.conditional l'.conditional := by
  have hothers : C.Same (List.map (Branch.mapPositions C.place))
      (many (· = .keyword .elifKw) (do discard advance; l.branch))
      (many (· = .keyword .elifKw) (do discard advance; l'.branch)) := by
    apply same_many
    intro k hk
    obtain rfl : k = .keyword .elifKw := by simpa using hk
    exact same_after_advance rfl hl.branch
  have hotherwise := same_after? (j := .keyword .elseKw) rfl hl.body
  apply (same_expect rfl).bind
  intro start
  apply hl.branch.bind
  intro first
  apply hothers.bind
  intro others
  apply hotherwise.bind
  intro otherwise
  have hnode : (Stmt.conditional start.position (first :: others) otherwise).mapPositions C.place =
      .conditional (C.place start.position)
        (first.mapPositions C.place :: others.map (Branch.mapPositions C.place))
        (otherwise.map (Block.mapPositions C.place)) := by
    rw [← List.map_cons, ← Branch.mapAllPositions_eq_map]
    cases otherwise <;> rfl
  exact fun _ ↦ hnode ▸ C.rel_pure _

theorem whileLoop : C.Same (Stmt.mapPositions C.place) l.whileLoop l'.whileLoop := by
  apply (same_expect rfl).bind
  intro start
  apply (hl.expr .lowest).bind
  intro condition
  apply hl.body.bind
  intro body
  exact same_pure (Stmt.whileLoop start.position condition body)

theorem forLoop : C.Same (Stmt.mapPositions C.place) l.forLoop l'.forLoop := by
  apply (same_expect rfl).bind
  intro start
  apply same_identifier.bind
  intro name
  apply (same_expect rfl).discard.bind
  intro _
  apply (hl.expr .lowest).bind
  intro iterable
  apply hl.body.bind
  intro body
  exact same_pure (Stmt.forLoop start.position name iterable body)

theorem returning : C.Same (Stmt.mapPositions C.place) l.returning l'.returning := by
  have hrest (position : Position) (value : Option Expr) : C.Same (Stmt.mapPositions C.place)
      (do skipNewlines; return Stmt.returning position value)
      (do
        skipNewlines
        return Stmt.returning (C.place position) (value.map (Expr.mapPositions C.place))) := by
    apply same_skipNewlines.bind
    intro _
    exact same_pure (Stmt.returning position value)
  apply (same_expect rfl).bind
  intro start k
  apply Comparison.kind_bind
  split
  · exact C.rel_bind (C.rel_pure none) fun value ↦ hrest start.position value
  · have hvalue : C.Rel (Option.map (Expr.mapPositions C.place)) k (some <$> l.expression)
        (some <$> l'.expression) := Comparison.map (hl.expr .lowest k) fun _ ↦ rfl
    exact C.rel_bind hvalue fun value ↦ hrest start.position value

theorem classDecl : C.Same (Stmt.mapPositions C.place) l.classDecl l'.classDecl := by
  apply (same_expect rfl).bind
  intro start
  apply same_identifier.bind
  intro name
  apply hl.body.bind
  intro body
  exact same_pure (Stmt.classDecl start.position name body)

theorem simple : C.Same (Stmt.mapPositions C.place) l.simple l'.simple := by
  intro k
  apply Comparison.position_bind
  intro position
  apply C.rel_bind (hl.expr .lowest k)
  intro e k
  apply Comparison.kind_bind
  cases hop : k.assignOp? with
  | some op =>
      have hrise : k.rise = 0 := Kind.rise_of_eq_some (g := Kind.assignOp?) rfl rfl hop
      apply C.rel_bind (Comparison.discard (C.rel_advance hrise))
      intro _
      apply (hl.expr .lowest).bind
      intro value
      apply same_skipNewlines.bind
      intro _
      exact same_pure (Stmt.assignment position e op value)
  | none =>
      apply C.rel_bind (C.rel_skipNewlines k)
      intro _
      exact same_pure (Stmt.expression position e)

theorem formed {k : Kind} (hk : k.rise = 0) (form : StatementForm) :
    C.Rel (Stmt.mapPositions C.place) k (l.formed form) (l'.formed form) := by
  cases form with
  | function => exact hl.function k
  | binding => exact hl.binding (C.rel_advance hk)
  | conditional => exact hl.conditional k
  | whileLoop => exact hl.whileLoop k
  | forLoop => exact hl.forLoop k
  | returning => exact hl.returning k
  | word => exact rel_word (C.rel_advance hk)
  | classDecl => exact hl.classDecl k
  | importing => exact same_importing k
  | fromImport => exact same_fromImport k

theorem statement : C.Same (Stmt.mapPositions C.place) l.statement l'.statement := by
  apply same_skipNewlines.bind
  intro _ k
  apply Comparison.kind_bind
  split
  · next form hform =>
      have hrise : k.rise = 0 := Kind.rise_of_eq_some (g := Kind.statementForm?) rfl rfl hform
      exact hl.formed hrise form
  · exact hl.simple k

theorem statements (close : Kind) : C.Same (List.map (Stmt.mapPositions C.place))
    (l.statements close) (l'.statements close) := by
  apply same_many
  intro k _
  apply C.rel_bind (hl.statement k)
  intro s
  apply same_skipNewlines.bind
  intro _
  exact same_pure s

theorem braced {k : Kind} (hk : k.rise = 0) :
    C.Rel (List.map (Stmt.mapPositions C.place)) k l.braced l'.braced := by
  apply C.rel_bind (Comparison.discard (C.rel_advance hk))
  intro _
  apply same_skipNewlines.bind
  intro _
  apply (hl.statements (.mark .closeCurly)).bind
  intro body
  apply (same_expect rfl).discard.bind
  intro _
  apply same_skipNewlines.bind
  intro _
  exact same_pure body

theorem blockBody
    (hindented : C.Same (List.map (Stmt.mapPositions C.place)) l.indented l'.indented) :
    C.Same (Block.mapPositions C.place) l.blockBody l'.blockBody := by
  have hrest (position : Position) (body : List Stmt) : C.Same (Block.mapPositions C.place)
      (return Block.mk position body)
      (return Block.mk (C.place position) (body.map (Stmt.mapPositions C.place))) := by
    rw [← Stmt.mapAllPositions_eq_map]
    exact same_pure (Block.mk position body)
  intro k
  apply Comparison.position_bind
  intro position
  apply Comparison.kind_bind
  split
  · next hopen =>
      have hrise : k.rise = 0 := by
        rw [hopen]
        rfl
      exact C.rel_bind (hl.braced hrise) (hrest position)
  · exact C.rel_bind (hindented k) (hrest position)

end Compares

/-- What is parsed behind the statements of an indented block. -/
def closing (ss : List Stmt) : Parse (List Stmt) := do
  if (← kind) = .dedent || (← get).mode.isStrict then
    discard (expect .dedent)
  return ss

theorem indented_eq (l : Level) :
    l.indented = expect .indent >>= fun _ ↦ l.statements .dedent >>= closing :=
  discard_bind _ _

/-- What is parsed there in the given mode. -/
def closingIn (ss : List Stmt) (mode : Mode) : Parse (List Stmt) := do
  if (← kind) = .dedent || mode.isStrict then
    discard (expect .dedent)
  return ss

theorem closing_eq (ss : List Stmt) : closing ss = get >>= fun c ↦ closingIn ss c.mode := rfl

theorem closing_of_dedent (ss : List Stmt) {d : Cursor} {t : Token} {ts : List Token}
    (hahead : d.ahead = t :: ts) (ht : t.kind = .dedent) :
    closing ss d = .ok ss (d.facing ts) := by
  have hd : d = d.facing (t :: ts) := by
    rw [← hahead]
    rfl
  have hkind : d.current.kind = .dedent := by
    rw [hd]
    exact ht
  rw [closing, bind_of_ok (kind_eq d), get_bind, if_pos (by simp [hkind]), hd]
  show (discard (expect .dedent) >>= _) _ = _
  rw [discard_bind, expect_bind_cons ht]
  rfl

theorem closing_of_strict (ss : List Stmt) {d : Cursor} (hmode : d.mode = .strict)
    (hkind : d.current.kind ≠ .dedent) :
    closing ss d =
      .error ⟨.unexpectedToken .dedent d.current.describe, d.current.position⟩ d := by
  rw [closing, bind_of_ok (kind_eq d), get_bind, hmode, if_pos (by simp [Mode.isStrict])]
  show (discard (expect .dedent) >>= _) _ = _
  rw [discard_bind]
  apply bind_of_error
  rw [expect_eq, if_neg hkind]

theorem same_closing {C : Comparison} (hC : C.Uniform) (ss : List Stmt) :
    C.Same (List.map (Stmt.mapPositions C.place)) (closing ss)
      (closing (ss.map (Stmt.mapPositions C.place))) := by
  rw [closing_eq, closing_eq]
  intro k
  apply hC.mode
  intro mode
  apply Comparison.kind_bind
  split
  · exact (hC.same_expect .dedent).discard.bind (fun _ ↦ same_pure ss) k
  · exact C.rel_pure ss

namespace Compares

variable {C : Comparison} {l l' : Level} (hl : l.Compares C l')

include hl

theorem indented (hC : C.Uniform) :
    C.Same (List.map (Stmt.mapPositions C.place)) l.indented l'.indented := by
  rw [indented_eq, indented_eq]
  apply (hC.same_expect .indent).bind
  intro _
  apply (hl.statements .dedent).bind
  intro ss
  exact same_closing hC ss

theorem blockBody_of_uniform (hC : C.Uniform) :
    C.Same (Block.mapPositions C.place) l.blockBody l'.blockBody :=
  hl.blockBody (hl.indented hC)

end Compares

/-- The level whose parsers do what `opened` does with those of the next one. -/
def around (opened : ∀ {α : Type}, (Level → Parse α) → Parse α) : Level :=
  let expr (p : Precedence) : Parse Expr := opened (·.climb p)
  { expr := expr
    operand := do
      match (← kind).unaryOp? with
      | some op => opened (·.prefixed op)
      | none => suffixed (expr .lowest)
    block := opened (·.blockBody) }

theorem above_eq_around (inner : Option Level) : above inner = around (entering inner) := rfl

/-- Levels compare if what is opened in them does. -/
theorem around_compares {C : Comparison}
    {opened opened' : ∀ {α : Type}, (Level → Parse α) → Parse α}
    (hexpr : ∀ p, C.Same (Expr.mapPositions C.place) (opened (·.climb p)) (opened' (·.climb p)))
    (hprefixed : ∀ k op, k.unaryOp? = some op →
      C.Rel (Expr.mapPositions C.place) k (opened (·.prefixed op)) (opened' (·.prefixed op)))
    (hblock : C.Same (Block.mapPositions C.place) (opened (·.blockBody)) (opened' (·.blockBody))) :
    (around opened).Compares C (around opened') := by
  constructor
  · exact hexpr
  · intro k
    apply Comparison.kind_bind
    split
    · next op hop => exact hprefixed k op hop
    · exact same_suffixed (hexpr .lowest) k
  · exact hblock

end Level
end Offside
