import Offside.Tree.Basic

/-!
# Nodes and their children

A tree seen as nodes of one type. The children of a node come in the order of the source, each
with the part that it plays; a branch of a conditional gives its condition and its block to the
statement.
-/

namespace Offside

inductive Node where
  | program (p : Program)
  | stmt (s : Stmt)
  | block (b : Block)
  | parameter (p : Parameter)
  | type (t : TypeRef)
  | expr (e : Expr)

/-- The part that a node plays in the one above it. -/
inductive Role where
  | root | body | parameter | type | default | value | returns
  | condition | consequence | alternative | iterable | target
  | left | right | operand | callee | argument | object | index | element
  deriving DecidableEq, Repr

def Expr.children : Expr → List (Role × Node)
  | .integer _ _ | .float _ _ | .string _ _ | .boolean _ _ | .null _ | .symbol _ _ => []
  | .binary _ _ l r => [(.left, .expr l), (.right, .expr r)]
  | .unary _ _ e => [(.operand, .expr e)]
  | .call _ e es => (.callee, .expr e) :: es.map fun a ↦ (.argument, .expr a)
  | .subscript _ e i => [(.object, .expr e), (.index, .expr i)]
  | .member _ e _ => [(.object, .expr e)]
  | .array _ es => es.map fun e ↦ (.element, .expr e)

def typeChild (role : Role) (t : Option TypeRef) : List (Role × Node) :=
  t.toList.map fun t ↦ (role, .type t)

def exprChild (role : Role) (e : Option Expr) : List (Role × Node) :=
  e.toList.map fun e ↦ (role, .expr e)

def Parameter.children (p : Parameter) : List (Role × Node) :=
  typeChild .type p.type ++ exprChild .default p.default

def Branch.children (b : Branch) : List (Role × Node) :=
  [(.condition, .expr b.condition), (.consequence, .block b.body)]

def Stmt.children : Stmt → List (Role × Node)
  | .expression _ e => [(.value, .expr e)]
  | .varDecl _ _ _ t e => typeChild .type t ++ exprChild .value e
  | .fnDecl _ _ ps t b =>
      (ps.map fun p ↦ (.parameter, .parameter p)) ++ typeChild .returns t ++ [(.body, .block b)]
  | .returning _ e => exprChild .value e
  | .conditional _ bs o =>
      bs.flatMap Branch.children ++ o.toList.map fun b ↦ (.alternative, .block b)
  | .whileLoop _ e b => [(.condition, .expr e), (.body, .block b)]
  | .forLoop _ _ e b => [(.iterable, .expr e), (.body, .block b)]
  | .breaking _ | .continuing _ | .pass _ | .importing _ _ _ _ => []
  | .assignment _ t _ e => [(.target, .expr t), (.value, .expr e)]
  | .classDecl _ _ b => [(.body, .block b)]

def stmtChildren (ss : List Stmt) : List (Role × Node) :=
  ss.map fun s ↦ (.body, .stmt s)

namespace Node

def position : Node → Position
  | .program p => p.position
  | .stmt s => s.position
  | .block b => b.position
  | .parameter p => p.position
  | .type t => t.position
  | .expr e => e.position

def children : Node → List (Role × Node)
  | .program p => stmtChildren p.body
  | .stmt s => s.children
  | .block b => stmtChildren b.body
  | .parameter p => p.children
  | .type _ => []
  | .expr e => e.children

end Node

/-- A function for each class of node that a statement can have as a child. -/
structure ChildMap where
  expr : Expr → Expr := id
  block : Block → Block := id
  type : TypeRef → TypeRef := id
  parameter : Parameter → Parameter := id

/-- Changes the children of a statement and nothing below them. -/
def Stmt.mapChildren (m : ChildMap) : Stmt → Stmt
  | .expression p e => .expression p (m.expr e)
  | .varDecl p s c t e => .varDecl p s c (t.map m.type) (e.map m.expr)
  | .fnDecl p s ps t b => .fnDecl p s (ps.map m.parameter) (t.map m.type) (m.block b)
  | .returning p e => .returning p (e.map m.expr)
  | .conditional p bs o =>
      .conditional p (bs.map fun b ↦ ⟨m.expr b.condition, m.block b.body⟩) (o.map m.block)
  | .whileLoop p e b => .whileLoop p (m.expr e) (m.block b)
  | .forLoop p s e b => .forLoop p s (m.expr e) (m.block b)
  | .breaking p => .breaking p
  | .continuing p => .continuing p
  | .pass p => .pass p
  | .assignment p t op e => .assignment p (m.expr t) op (m.expr e)
  | .classDecl p s b => .classDecl p s (m.block b)
  | .importing p n is a => .importing p n is a

end Offside
