import Offside.Grammar.Parse
import Offside.Grammar.Precedence
import Offside.Number.Numeral
import Offside.Tree.Basic

/-!
# Expressions

An expression is a chain of operands and binary operators, grouped by precedence. An operand is a
row of unary operators in front of an atom that calls, subscripts and members may follow. Atoms
are literals, names, groups in parentheses, which leave no trace in the tree, and arrays.

The parsers below an expression are given the parser of whole expressions, for what stands in
brackets.
-/

namespace Offside

/-- How an atom begins. -/
inductive AtomForm where
  | primary
  | group
  | array
  deriving DecidableEq, Repr

def Kind.atomForm? : Kind → Option AtomForm
  | .integer | .float | .string | .identifier => some .primary
  | .keyword .trueKw | .keyword .falseKw | .keyword .noneKw => some .primary
  | .mark .openParen => some .group
  | .mark .openBracket => some .array
  | _ => none

/-- What may follow an atom. -/
inductive Suffix where
  | call
  | subscript
  | member
  deriving DecidableEq, Repr

def Kind.suffix? : Kind → Option Suffix
  | .mark .openParen => some .call
  | .mark .openBracket => some .subscript
  | .mark .dot => some .member
  | _ => none

/-- The expression that a single token is. A number without a value of its own sort is read from
its text. -/
def Expr.ofToken (t : Token) : Except Cause Expr :=
  match t.kind with
  | .integer => match t.literal with
      | some (.integer n) => .ok (.integer t.position n)
      | _ => match Numeral.integer? t.lexeme.toList with
          | some n => .ok (.integer t.position n)
          | none => .error (.malformedNumber t.lexeme)
  | .float => match t.literal with
      | some (.float x) => .ok (.float t.position x)
      | _ => match Numeral.double? t.lexeme.toList with
          | some x => .ok (.float t.position x)
          | none => .error (.malformedNumber t.lexeme)
  | .string => match t.literal with
      | some (.text s) => .ok (.string t.position s)
      | _ => .ok (.string t.position t.lexeme)
  | .keyword .trueKw => .ok (.boolean t.position true)
  | .keyword .falseKw => .ok (.boolean t.position false)
  | .keyword .noneKw => .ok (.null t.position)
  | .identifier => .ok (.symbol t.position t.lexeme)
  | _ => .error (.expectedExpression t.describe)

namespace Parse

/-- The token is read even if it is no expression. -/
def primary : Parse Expr := do
  let token ← advance
  match Expr.ofToken token with
  | .ok e => return e
  | .error cause => throw ⟨cause, token.position⟩

def group (expression : Parse Expr) : Parse Expr := do
  discard (expect (.mark .openParen))
  let e ← expression
  discard (expect (.mark .closeParen))
  return e

def array (expression : Parse Expr) : Parse Expr := do
  let start ← expect (.mark .openBracket)
  let elements ← listUntil (.mark .closeBracket) expression
  discard (expect (.mark .closeBracket))
  return .array start.position elements

def atom (expression : Parse Expr) : Parse Expr := do
  let token ← current
  match token.kind.atomForm? with
  | some .primary => primary
  | some .group => group expression
  | some .array => array expression
  | none => reject (.expectedExpression token.describe)

/-- Reads what follows `e`; the new node starts where `e` starts. -/
def suffix (expression : Parse Expr) (e : Expr) (form : Suffix) : Parse Expr := do
  discard advance
  match form with
  | .call =>
      let arguments ← listUntil (.mark .closeParen) expression
      discard (expect (.mark .closeParen))
      return .call e.position e arguments
  | .subscript =>
      let index ← expression
      discard (expect (.mark .closeBracket))
      return .subscript e.position e index
  | .member =>
      let name ← identifier
      return .member e.position e name

/-- An atom with all that follows it, grouped to the left. -/
def suffixed (expression : Parse Expr) : Parse Expr := do
  let e ← atom expression
  chain Kind.suffix? (suffix expression) e

end Parse
end Offside
