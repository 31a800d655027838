import Offside.Number.Written
import Offside.Text.Quoted
import Offside.Tree.Basic

/-!
# Dumps of trees

A dump writes a whole tree down, a field or an element to a line, four spaces deeper than what it
belongs to and with a comma after it.
-/

namespace Offside

inductive Dump where
  | atom (text : String)
  | record (name : String) (fields : List (String × Dump))
  /-- A single value under a name. -/
  | tagged (name : String) (value : Dump)
  | list (items : List Dump)

namespace Dump

def indent (depth : Nat) : String :=
  String.ofList (List.replicate (4 * depth) ' ')

mutual

/-- Adds a dump to the text before it. The first line goes on where that text ends. -/
def write (out : String) (depth : Nat) : Dump → String
  | .atom text => out ++ text
  | .record name fields =>
      writeFields (out ++ name ++ " \x7b\n") (depth + 1) fields ++ indent depth ++ "\x7d"
  | .tagged name value =>
      write (out ++ name ++ "(\n" ++ indent (depth + 1)) (depth + 1) value ++ ",\n" ++
        indent depth ++ ")"
  | .list [] => out ++ "[]"
  | .list (d :: ds) =>
      writeItems (write (out ++ "[\n" ++ indent (depth + 1)) (depth + 1) d ++ ",\n")
        (depth + 1) ds ++ indent depth ++ "]"

def writeFields (out : String) (depth : Nat) : List (String × Dump) → String
  | [] => out
  | (name, d) :: fields =>
      writeFields (write (out ++ indent depth ++ name ++ ": ") depth d ++ ",\n") depth fields

def writeItems (out : String) (depth : Nat) : List Dump → String
  | [] => out
  | d :: ds => writeItems (write (out ++ indent depth) depth d ++ ",\n") depth ds

end

def render (d : Dump) : String :=
  d.write "" 0

def ofString (s : String) : Dump :=
  .atom (Text.quote s)

def ofBool (b : Bool) : Dump :=
  .atom (if b then "true" else "false")

def ofOption {α : Type} (f : α → Dump) : Option α → Dump
  | none => .atom "None"
  | some a => .tagged "Some" (f a)

end Dump

def Position.dump (p : Position) : Dump :=
  .record "Position" [("line", .atom (toString p.line.toNat)),
    ("column", .atom (toString p.column.toNat))]

/-- A node with its position outside the fields of its own. -/
def Dump.node (name : String) (kind : Dump) (position : Position) : Dump :=
  .record name [("kind", kind), ("position", position.dump)]

/-- A kind of node that has fields, under its own name and that of their record. -/
def Dump.fields (kind record : String) (fields : List (String × Dump)) : Dump :=
  .tagged kind (.record record fields)

mutual

def Expr.dump : Expr → Dump
  | .integer p n => .node "Expr" (.tagged "Integer" (.atom (toString n))) p
  | .float p x => .node "Expr" (.tagged "Float" (.atom x.text)) p
  | .string p s => .node "Expr" (.tagged "String" (.ofString s)) p
  | .boolean p b => .node "Expr" (.tagged "Boolean" (.ofBool b)) p
  | .null p => .node "Expr" (.atom "Null") p
  | .symbol p s => .node "Expr" (.tagged "Symbol" (.ofString s)) p
  | .binary p op l r => .node "Expr" (.fields "Binary" "BinaryExpr"
      [("operator", .atom op.name), ("left", l.dump), ("right", r.dump)]) p
  | .unary p op e => .node "Expr" (.fields "Prefix" "PrefixExpr"
      [("operator", .atom op.name), ("right_expr", e.dump)]) p
  | .call p e es => .node "Expr" (.fields "Call" "CallExpr"
      [("callee", e.dump), ("arguments", .list (Expr.dumpAll es))]) p
  | .subscript p e i => .node "Expr" (.fields "Subscript" "SubscriptExpr"
      [("object", e.dump), ("index", i.dump)]) p
  | .member p e s => .node "Expr" (.fields "Member" "MemberExpr"
      [("object", e.dump), ("member", .ofString s)]) p
  | .array p es => .node "Expr" (.fields "Array" "ArrayExpr"
      [("elements", .list (Expr.dumpAll es))]) p

def Expr.dumpAll : List Expr → List Dump
  | [] => []
  | e :: es => e.dump :: Expr.dumpAll es

end

def TypeRef.dump (t : TypeRef) : Dump :=
  .record "TypeAnnotation"
    [("name", .ofString t.name), ("optional", .ofBool t.optional), ("position", t.position.dump)]

def Parameter.dump (p : Parameter) : Dump :=
  .record "Parameter"
    [("name", .ofString p.name), ("explicit_type", .ofOption TypeRef.dump p.type),
     ("default_value", .ofOption Expr.dump p.default), ("position", p.position.dump)]

mutual

def Stmt.dump : Stmt → Dump
  | .expression p e => .node "Stmt" (.tagged "Expression" e.dump) p
  | .varDecl p s c t e => .node "Stmt" (.fields "VarDecl" "VarDeclStmt"
      [("identifier", .ofString s), ("is_constant", .ofBool c),
       ("assigned_value", .ofOption Expr.dump e),
       ("explicit_type", .ofOption TypeRef.dump t)]) p
  | .fnDecl p s ps t b => .node "Stmt" (.fields "FnDecl" "FnDeclStmt"
      [("identifier", .ofString s), ("parameters", .list (ps.map Parameter.dump)),
       ("return_type", .ofOption TypeRef.dump t), ("body", b.dump)]) p
  | .returning p e => .node "Stmt" (.fields "Return" "ReturnStmt"
      [("value", .ofOption Expr.dump e)]) p
  | .conditional p bs none => .node "Stmt" (.fields "If" "IfStmt"
      [("branches", .list (Branch.dumpAll bs)), ("else_body", .atom "None")]) p
  | .conditional p bs (some b) => .node "Stmt" (.fields "If" "IfStmt"
      [("branches", .list (Branch.dumpAll bs)), ("else_body", .tagged "Some" b.dump)]) p
  | .whileLoop p e b => .node "Stmt" (.fields "While" "WhileStmt"
      [("condition", e.dump), ("body", b.dump)]) p
  | .forLoop p s e b => .node "Stmt" (.fields "For" "ForStmt"
      [("variable", .ofString s), ("iterable", e.dump), ("body", b.dump)]) p
  | .breaking p => .node "Stmt" (.atom "Break") p
  | .continuing p => .node "Stmt" (.atom "Continue") p
  | .pass p => .node "Stmt" (.atom "Pass") p
  | .assignment p t op e => .node "Stmt" (.fields "Assignment" "AssignmentStmt"
      [("assignee", t.dump), ("operator", .atom op.name), ("value", e.dump)]) p
  | .classDecl p s b => .node "Stmt" (.fields "ClassDecl" "ClassDeclStmt"
      [("name", .ofString s), ("body", b.dump)]) p
  | .importing p m is a => .node "Stmt" (.fields "Import" "ImportStmt"
      [("module", .ofString m),
       ("items", .ofOption (fun items ↦ .list (items.map .ofString)) is),
       ("alias", .ofOption .ofString a)]) p

def Stmt.dumpAll : List Stmt → List Dump
  | [] => []
  | s :: ss => s.dump :: Stmt.dumpAll ss

def Block.dump : Block → Dump
  | ⟨p, ss⟩ => .record "BlockStmt" [("body", .list (Stmt.dumpAll ss)), ("position", p.dump)]

def Branch.dump : Branch → Dump
  | ⟨e, b⟩ => .record "ConditionalBranch" [("condition", e.dump), ("body", b.dump)]

def Branch.dumpAll : List Branch → List Dump
  | [] => []
  | b :: bs => b.dump :: Branch.dumpAll bs

end

def Program.dump (p : Program) : Dump :=
  .record "Program" [("body", .list (Stmt.dumpAll p.body)), ("position", p.position.dump)]

end Offside
