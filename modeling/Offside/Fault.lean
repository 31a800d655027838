import Offside.Token.Basic

/-!
# Faults

Why a source is rejected and where. The first four causes are found in the text, the others in
the order of the tokens.
-/

namespace Offside

inductive Cause where
  | unrecognisedCharacter (character : Char)
  | malformedNumber (lexeme : String)
  | unterminatedString
  /-- A line returns to a width at which no block is open. -/
  | inconsistentDedent (width : Nat)
  | unexpectedToken (expected : Kind) (found : String)
  | expectedExpression (found : String)
  | nestingTooDeep (limit : Nat)
  deriving DecidableEq, Repr

inductive Stage where
  | lexical
  | grammatical
  deriving DecidableEq, Repr

namespace Cause

def name : Cause → String
  | .unrecognisedCharacter _ => "UnrecognisedCharacter"
  | .malformedNumber _ => "NumberParseError"
  | .unterminatedString => "UnterminatedString"
  | .inconsistentDedent _ => "InconsistentDedent"
  | .unexpectedToken _ _ => "UnexpectedToken"
  | .expectedExpression _ => "ExpectedExpression"
  | .nestingTooDeep _ => "NestingTooDeep"

def message : Cause → String
  | .unrecognisedCharacter c => "unrecognised character: " ++ Text.quoteChar c
  | .malformedNumber lexeme => "error parsing number: " ++ Text.quote lexeme
  | .unterminatedString => "unterminated string literal"
  | .inconsistentDedent width => "inconsistent dedent to width " ++ toString width
  | .unexpectedToken expected found => "expected " ++ expected.description ++ ", found " ++ found
  | .expectedExpression found => "expected expression, found " ++ found
  | .nestingTooDeep limit => "nesting exceeds " ++ toString limit ++ " levels"

/-- An explanation, where there is more to say than the name of the cause. -/
def tip? : Cause → Option String
  | .unrecognisedCharacter _ => none
  | .malformedNumber lexeme => some ("`" ++ lexeme ++ "` is not a valid number")
  | .unterminatedString => some "String literal is missing its closing quote"
  | .inconsistentDedent width =>
      some ("Indentation of " ++ toString width ++ " does not match any enclosing block")
  | .unexpectedToken expected found =>
      some ("Expected " ++ expected.description ++ ", found " ++ found)
  | .expectedExpression found => some ("Expected an expression, found " ++ found)
  | .nestingTooDeep limit =>
      some ("Expressions and blocks may nest at most " ++ toString limit ++ " levels deep")

def stage : Cause → Stage
  | .unrecognisedCharacter _ | .malformedNumber _ | .unterminatedString
  | .inconsistentDedent _ => .lexical
  | .unexpectedToken _ _ | .expectedExpression _ | .nestingTooDeep _ => .grammatical

/-- The kind of token that alone could have stood where another was found. -/
def expected? : Cause → Option Kind
  | .unexpectedToken expected _ => some expected
  | _ => none

end Cause

structure Fault where
  cause : Cause
  position : Position
  deriving DecidableEq, Repr

def Fault.message (f : Fault) : String :=
  f.cause.message ++ " at " ++ f.position.text

end Offside
