import Offside.Grammar.Expression

/-!
# Levels and statements

A level holds the parsers that lead to deeper ones: of an expression of a given precedence, of an
operand and of a block. Statements are made from them. The first keyword of a statement decides
its form; without one it is an expression or an assignment.
-/

namespace Offside

structure Level where
  expr : Precedence → Parse Expr
  operand : Parse Expr
  block : Parse Block

/-- How a statement with a keyword goes on. -/
inductive StatementForm where
  | function
  | binding
  | conditional
  | whileLoop
  | forLoop
  | returning
  /-- A keyword that is a whole statement. -/
  | word
  | classDecl
  | importing
  | fromImport
  deriving DecidableEq, Repr

def Keyword.statementForm? : Keyword → Option StatementForm
  | .defKw => some .function
  | .letKw | .constKw => some .binding
  | .ifKw => some .conditional
  | .whileKw => some .whileLoop
  | .forKw => some .forLoop
  | .returnKw => some .returning
  | .breakKw | .continueKw | .passKw => some .word
  | .classKw => some .classDecl
  | .importKw => some .importing
  | .fromKw => some .fromImport
  | _ => none

def Kind.statementForm? : Kind → Option StatementForm
  | .keyword k => k.statementForm?
  | _ => none

namespace Parse

def typeRef : Parse TypeRef := do
  let token ← expect .identifier
  return ⟨token.lexeme, false, token.position⟩

def localName? : Parse (Option String) :=
  after? (.keyword .asKw) identifier

/-- Any token is taken for the keyword, and any that is not one of the others for `pass`. -/
def word : Parse Stmt := do
  let token ← advance
  skipNewlines
  match token.kind with
  | .keyword .breakKw => return .breaking token.position
  | .keyword .continueKw => return .continuing token.position
  | _ => return .pass token.position

def importing : Parse Stmt := do
  let start ← expect (.keyword .importKw)
  let module ← identifier
  let localName ← localName?
  skipNewlines
  return .importing start.position module none localName

def fromImport : Parse Stmt := do
  let start ← expect (.keyword .fromKw)
  let module ← identifier
  discard (expect (.keyword .importKw))
  let items ← commaSeparated identifier
  let localName ← localName?
  skipNewlines
  return .importing start.position module (some items) localName

end Parse

namespace Level

open Parse

def expression (l : Level) : Parse Expr :=
  l.expr .lowest

/-- The colon and the block that end the head of a compound statement. -/
def body (l : Level) : Parse Block := do
  discard (expect (.mark .colon))
  skipNewlines
  l.block

def parameter (l : Level) : Parse Parameter := do
  let position ← position
  let name ← identifier
  let type ← after? (.mark .colon) typeRef
  let default ← after? (.mark .assign) l.expression
  return ⟨name, type, default, position⟩

def function (l : Level) : Parse Stmt := do
  let start ← expect (.keyword .defKw)
  let name ← identifier
  discard (expect (.mark .openParen))
  let parameters ← listUntil (.mark .closeParen) l.parameter
  discard (expect (.mark .closeParen))
  let returns ← after? (.mark .arrow) typeRef
  let body ← l.body
  return .fnDecl start.position name parameters returns body

/-- Any token is taken for the keyword; only `const` makes a constant. -/
def binding (l : Level) : Parse Stmt := do
  let start ← advance
  let name ← identifier
  let type ← after? (.mark .colon) typeRef
  let value ← after? (.mark .assign) l.expression
  skipNewlines
  return .varDecl start.position name (start.kind = .keyword .constKw) type value

def branch (l : Level) : Parse Branch := do
  let condition ← l.expression
  let body ← l.body
  return ⟨condition, body⟩

def conditional (l : Level) : Parse Stmt := do
  let start ← expect (.keyword .ifKw)
  let first ← l.branch
  let others ← many (· = .keyword .elifKw) do
    discard advance
    l.branch
  let otherwise ← after? (.keyword .elseKw) l.body
  return .conditional start.position (first :: others) otherwise

def whileLoop (l : Level) : Parse Stmt := do
  let start ← expect (.keyword .whileKw)
  let condition ← l.expression
  let body ← l.body
  return .whileLoop start.position condition body

def forLoop (l : Level) : Parse Stmt := do
  let start ← expect (.keyword .forKw)
  let name ← identifier
  discard (expect (.keyword .inKw))
  let iterable ← l.expression
  let body ← l.body
  return .forLoop start.position name iterable body

/-- Nothing is returned if a line break or the end follows. -/
def returning (l : Level) : Parse Stmt := do
  let start ← expect (.keyword .returnKw)
  let next ← kind
  let value ← if next = .newline || next = .eof then pure none else some <$> l.expression
  skipNewlines
  return .returning start.position value

def classDecl (l : Level) : Parse Stmt := do
  let start ← expect (.keyword .classKw)
  let name ← identifier
  let body ← l.body
  return .classDecl start.position name body

/-- An expression, or an assignment to one. -/
def simple (l : Level) : Parse Stmt := do
  let position ← position
  let e ← l.expression
  match (← kind).assignOp? with
  | some op =>
      discard advance
      let value ← l.expression
      skipNewlines
      return .assignment position e op value
  | none =>
      skipNewlines
      return .expression position e

def formed (l : Level) : StatementForm → Parse Stmt
  | .function => l.function
  | .binding => l.binding
  | .conditional => l.conditional
  | .whileLoop => l.whileLoop
  | .forLoop => l.forLoop
  | .returning => l.returning
  | .word => word
  | .classDecl => l.classDecl
  | .importing => importing
  | .fromImport => fromImport

def statement (l : Level) : Parse Stmt := do
  skipNewlines
  match (← kind).statementForm? with
  | some form => l.formed form
  | none => l.simple

/-- The statements up to a token of kind `close` or the end, and the line breaks after each. -/
def statements (l : Level) (close : Kind) : Parse (List Stmt) :=
  many (fun k ↦ k ≠ close && k ≠ .eof) do
    let s ← l.statement
    skipNewlines
    return s

/-- Statements in braces, which may have line breaks around them. -/
def braced (l : Level) : Parse (List Stmt) := do
  discard advance
  skipNewlines
  let body ← l.statements (.mark .closeCurly)
  discard (expect (.mark .closeCurly))
  skipNewlines
  return body

/-- Indented statements. Lenient parsing lets them end with the tokens. -/
def indented (l : Level) : Parse (List Stmt) := do
  discard (expect .indent)
  let body ← l.statements .dedent
  if (← kind) = .dedent || (← get).mode.isStrict then
    discard (expect .dedent)
  return body

def blockBody (l : Level) : Parse Block := do
  let position ← position
  let body ← if (← kind) = .mark .openCurly then l.braced else l.indented
  return ⟨position, body⟩

/-- An expression whose operators all bind at least as tightly as `p`. -/
def climb (l : Level) (p : Precedence) : Parse Expr := do
  let e ← l.operand
  chain (Kind.binaryOpAbove? p) (fun left op ↦ do
    discard advance
    let right ← l.expr op.precedence.rightOperand
    return .binary left.position op left right) e

/-- The operand of the unary operator `op`, which stands at the cursor, and its node. -/
def prefixed (l : Level) (op : UnaryOp) : Parse Expr := do
  let token ← advance
  let e ← l.operand
  return .unary token.position op e

/-- The level that encloses `inner`; with nothing inside, no more levels can be opened in it. -/
def above (inner : Option Level) : Level :=
  let expr (p : Precedence) : Parse Expr := entering inner (·.climb p)
  { expr := expr
    operand := do
      match (← kind).unaryOp? with
      | some op => entering inner (·.prefixed op)
      | none => suffixed (expr .lowest)
    block := entering inner (·.blockBody) }

/-- The level in which `room` more can be opened. -/
def ofRoom : Nat → Level
  | 0 => above none
  | room + 1 => above (some (ofRoom room))

end Level

/-- Parses at the level at which the cursor stands. -/
def Parse.here {α : Type} (p : Level → Parse α) : Parse α := do
  p (Level.ofRoom (← get).room)

end Offside
