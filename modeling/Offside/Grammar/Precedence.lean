import Offside.Tree.Operator

/-!
# Precedence

The levels of binding, loosest first. An operator of a level takes operands of the next level on
its right, so that it groups to the left; only the power operator takes its own level and groups
to the right.
-/

namespace Offside

inductive Precedence where
  | lowest | logicalOr | logicalAnd | relational | bitOr | bitXor | bitAnd | shift
  | additive | multiplicative | power
  /-- Tighter than every binary operator. -/
  | unary
  deriving DecidableEq, Repr

namespace Precedence

def rank : Precedence → Nat
  | .lowest => 0
  | .logicalOr => 1
  | .logicalAnd => 2
  | .relational => 3
  | .bitOr => 4
  | .bitXor => 5
  | .bitAnd => 6
  | .shift => 7
  | .additive => 8
  | .multiplicative => 9
  | .power => 10
  | .unary => 11

instance : LE Precedence := ⟨fun p q ↦ p.rank ≤ q.rank⟩

instance : DecidableLE Precedence := fun p q ↦ inferInstanceAs (Decidable (p.rank ≤ q.rank))

instance : Ord Precedence := ⟨fun p q ↦ compare p.rank q.rank⟩

theorem le_iff_rank_le {p q : Precedence} : p ≤ q ↔ p.rank ≤ q.rank := Iff.rfl

/-- The next level, if there is one. -/
def tighter : Precedence → Precedence
  | .lowest => .logicalOr
  | .logicalOr => .logicalAnd
  | .logicalAnd => .relational
  | .relational => .bitOr
  | .bitOr => .bitXor
  | .bitXor => .bitAnd
  | .bitAnd => .shift
  | .shift => .additive
  | .additive => .multiplicative
  | .multiplicative => .power
  | .power => .unary
  | .unary => .unary

/-- The loosest that may stand to the right of an operator of this level. -/
def rightOperand : Precedence → Precedence
  | .power => .power
  | p => p.tighter

end Precedence

def BinaryOp.precedence : BinaryOp → Precedence
  | .logicalOr => .logicalOr
  | .logicalAnd => .logicalAnd
  | .equals | .notEquals | .less | .lessEquals | .greater | .greaterEquals => .relational
  | .bitOr => .bitOr
  | .bitXor => .bitXor
  | .bitAnd => .bitAnd
  | .shiftLeft | .shiftRight => .shift
  | .add | .subtract => .additive
  | .multiply | .divide | .modulo | .floorDivide => .multiplicative
  | .power => .power

/-- The binary operator of a kind, if it binds at least as tightly as `p`. -/
def Kind.binaryOpAbove? (p : Precedence) (k : Kind) : Option BinaryOp :=
  k.binaryOp?.filter (p ≤ ·.precedence)

end Offside
