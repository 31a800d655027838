import Offside.Token.Kind

/-!
# Operators

The operators of expressions and of assignments. Each is written with tokens of one kind; the same
kind may stand for an operator between two operands and for one in front of an operand.
-/

namespace Offside

inductive BinaryOp where
  | logicalOr | logicalAnd | equals | notEquals | less | lessEquals | greater | greaterEquals
  | bitOr | bitXor | bitAnd | shiftLeft | shiftRight | add | subtract | multiply | divide | modulo
  | floorDivide | power
  deriving DecidableEq, Repr

namespace BinaryOp

def name : BinaryOp → String
  | .logicalOr => "Or"
  | .logicalAnd => "And"
  | .equals => "Equals"
  | .notEquals => "NotEquals"
  | .less => "Less"
  | .lessEquals => "LessEquals"
  | .greater => "Greater"
  | .greaterEquals => "GreaterEquals"
  | .bitOr => "BitOr"
  | .bitXor => "BitXor"
  | .bitAnd => "BitAnd"
  | .shiftLeft => "ShiftLeft"
  | .shiftRight => "ShiftRight"
  | .add => "Add"
  | .subtract => "Subtract"
  | .multiply => "Multiply"
  | .divide => "Divide"
  | .modulo => "Modulo"
  | .floorDivide => "FloorDivide"
  | .power => "Power"

/-- The kind of the tokens that stand for the operator. -/
def kind : BinaryOp → Kind
  | .logicalOr => .keyword .orKw
  | .logicalAnd => .keyword .andKw
  | .equals => .mark .equals
  | .notEquals => .mark .notEquals
  | .less => .mark .less
  | .lessEquals => .mark .lessEquals
  | .greater => .mark .greater
  | .greaterEquals => .mark .greaterEquals
  | .bitOr => .mark .pipe
  | .bitXor => .mark .caret
  | .bitAnd => .mark .ampersand
  | .shiftLeft => .mark .shiftLeft
  | .shiftRight => .mark .shiftRight
  | .add => .mark .plus
  | .subtract => .mark .dash
  | .multiply => .mark .star
  | .divide => .mark .slash
  | .modulo => .mark .percent
  | .floorDivide => .mark .slashSlash
  | .power => .mark .starStar

def symbol (op : BinaryOp) : String :=
  op.kind.spelling

end BinaryOp

/-- The operator that a token of this kind stands for. -/
def Kind.binaryOp? : Kind → Option BinaryOp
  | .keyword .orKw => some .logicalOr
  | .keyword .andKw => some .logicalAnd
  | .mark .equals => some .equals
  | .mark .notEquals => some .notEquals
  | .mark .less => some .less
  | .mark .lessEquals => some .lessEquals
  | .mark .greater => some .greater
  | .mark .greaterEquals => some .greaterEquals
  | .mark .pipe => some .bitOr
  | .mark .caret => some .bitXor
  | .mark .ampersand => some .bitAnd
  | .mark .shiftLeft => some .shiftLeft
  | .mark .shiftRight => some .shiftRight
  | .mark .plus => some .add
  | .mark .dash => some .subtract
  | .mark .star => some .multiply
  | .mark .slash => some .divide
  | .mark .percent => some .modulo
  | .mark .slashSlash => some .floorDivide
  | .mark .starStar => some .power
  | _ => none

theorem Kind.binaryOp?_eq_some_iff {k : Kind} {op : BinaryOp} :
    k.binaryOp? = some op ↔ k = op.kind := by
  constructor
  · intro h
    unfold Kind.binaryOp? at h
    split at h <;> cases h <;> rfl
  · rintro rfl
    cases op <;> rfl

inductive UnaryOp where
  | logicalNot | negate | plus | bitNot
  deriving DecidableEq, Repr

namespace UnaryOp

def name : UnaryOp → String
  | .logicalNot => "Not"
  | .negate => "Negate"
  | .plus => "Plus"
  | .bitNot => "BitNot"

/-- The kind of the tokens that stand for the operator. -/
def kind : UnaryOp → Kind
  | .logicalNot => .keyword .notKw
  | .negate => .mark .dash
  | .plus => .mark .plus
  | .bitNot => .mark .tilde

def symbol (op : UnaryOp) : String :=
  op.kind.spelling

end UnaryOp

/-- The operator that a token of this kind stands for. -/
def Kind.unaryOp? : Kind → Option UnaryOp
  | .keyword .notKw => some .logicalNot
  | .mark .dash => some .negate
  | .mark .plus => some .plus
  | .mark .tilde => some .bitNot
  | _ => none

theorem Kind.unaryOp?_eq_some_iff {k : Kind} {op : UnaryOp} :
    k.unaryOp? = some op ↔ k = op.kind := by
  constructor
  · intro h
    unfold Kind.unaryOp? at h
    split at h <;> cases h <;> rfl
  · rintro rfl
    cases op <;> rfl

inductive AssignOp where
  | assign | addAssign | subtractAssign | multiplyAssign | divideAssign
  deriving DecidableEq, Repr

namespace AssignOp

def name : AssignOp → String
  | .assign => "Assign"
  | .addAssign => "AddAssign"
  | .subtractAssign => "SubtractAssign"
  | .multiplyAssign => "MultiplyAssign"
  | .divideAssign => "DivideAssign"

/-- The kind of the tokens that stand for the operator. -/
def kind : AssignOp → Kind
  | .assign => .mark .assign
  | .addAssign => .mark .plusAssign
  | .subtractAssign => .mark .minusAssign
  | .multiplyAssign => .mark .starAssign
  | .divideAssign => .mark .slashAssign

def symbol (op : AssignOp) : String :=
  op.kind.spelling

/-- Whether the operator also reads its target. -/
def isCompound (op : AssignOp) : Bool :=
  op ≠ .assign

end AssignOp

/-- The operator that a token of this kind stands for. -/
def Kind.assignOp? : Kind → Option AssignOp
  | .mark .assign => some .assign
  | .mark .plusAssign => some .addAssign
  | .mark .minusAssign => some .subtractAssign
  | .mark .starAssign => some .multiplyAssign
  | .mark .slashAssign => some .divideAssign
  | _ => none

theorem Kind.assignOp?_eq_some_iff {k : Kind} {op : AssignOp} :
    k.assignOp? = some op ↔ k = op.kind := by
  constructor
  · intro h
    unfold Kind.assignOp? at h
    split at h <;> cases h <;> rfl
  · rintro rfl
    cases op <;> rfl

end Offside
