import Offside.Number.Binary64
import Offside.Position
import Offside.Tree.Operator

/-!
# Program trees

What a program is once its tokens are understood. Every node but a branch knows the position of
the token it starts with. A block is the same whether it was written in braces or by indentation.
-/

namespace Offside

inductive Expr where
  | integer (position : Position) (value : Int)
  | float (position : Position) (value : Binary64)
  | string (position : Position) (value : String)
  | boolean (position : Position) (value : Bool)
  | null (position : Position)
  | symbol (position : Position) (name : String)
  | binary (position : Position) (op : BinaryOp) (left right : Expr)
  | unary (position : Position) (op : UnaryOp) (operand : Expr)
  | call (position : Position) (callee : Expr) (arguments : List Expr)
  | subscript (position : Position) (object index : Expr)
  | member (position : Position) (object : Expr) (name : String)
  | array (position : Position) (elements : List Expr)

/-- A type, called by its name. -/
structure TypeRef where
  name : String
  /-- No source text sets this yet. -/
  optional : Bool
  position : Position
  deriving DecidableEq, Repr

structure Parameter where
  name : String
  type : Option TypeRef
  default : Option Expr
  position : Position

mutual

inductive Stmt where
  | expression (position : Position) (value : Expr)
  | varDecl (position : Position) (name : String) (isConstant : Bool)
      (type : Option TypeRef) (value : Option Expr)
  | fnDecl (position : Position) (name : String) (parameters : List Parameter)
      (returns : Option TypeRef) (body : Block)
  | returning (position : Position) (value : Option Expr)
  | conditional (position : Position) (branches : List Branch) (otherwise : Option Block)
  | whileLoop (position : Position) (condition : Expr) (body : Block)
  | forLoop (position : Position) (variableName : String) (iterable : Expr) (body : Block)
  | breaking (position : Position)
  | continuing (position : Position)
  | pass (position : Position)
  | assignment (position : Position) (target : Expr) (op : AssignOp) (value : Expr)
  | classDecl (position : Position) (name : String) (body : Block)
  /-- Without `items` the whole module is imported. -/
  | importing (position : Position) (module : String) (items : Option (List String))
      (localName : Option String)

structure Block where
  position : Position
  body : List Stmt

/-- A condition and what is done when it is the first that holds. -/
structure Branch where
  condition : Expr
  body : Block

end

structure Program where
  body : List Stmt
  position : Position

def Expr.position : Expr → Position
  | .integer p _ | .float p _ | .string p _ | .boolean p _ | .null p | .symbol p _
  | .binary p _ _ _ | .unary p _ _ | .call p _ _ | .subscript p _ _ | .member p _ _
  | .array p _ => p

def Stmt.position : Stmt → Position
  | .expression p _ | .varDecl p _ _ _ _ | .fnDecl p _ _ _ _ | .returning p _
  | .conditional p _ _ | .whileLoop p _ _ | .forLoop p _ _ _ | .breaking p | .continuing p
  | .pass p | .assignment p _ _ _ | .classDecl p _ _ | .importing p _ _ _ => p

end Offside
