import Offside.Number.Binary64
import Offside.Position
import Offside.Text.Quoted
import Offside.Token.Kind

/-!
# Tokens

A token is a piece of a source with its kind, its text, the value it denotes if it denotes one,
and the position of its first character. The tokens of the layout but the line break have no
text.
-/

namespace Offside

/-- The value of a token. An identifier has its own spelling as a text. -/
inductive Literal where
  | integer (value : Int)
  | float (value : Binary64)
  | text (value : String)
  | boolean (value : Bool)
  | null
  deriving DecidableEq, Repr

/-- The value that a keyword denotes. -/
def Keyword.literal? : Keyword → Option Literal
  | .trueKw => some (.boolean true)
  | .falseKw => some (.boolean false)
  | .noneKw => some .null
  | _ => none

structure Token where
  kind : Kind
  lexeme : String
  literal : Option Literal
  position : Position
  deriving DecidableEq, Repr

namespace Token

/-- A token of the layout, which has no text. -/
def layout (kind : Kind) (position : Position) : Token :=
  ⟨kind, "", none, position⟩

/-- What a message says was found. -/
def describe (t : Token) : String :=
  match t.kind with
  | .newline | .indent | .dedent | .eof => t.kind.description
  | _ => "`" ++ t.lexeme ++ "`"

/-- Whether a listing shows the text of a token of this kind. -/
def showsLexeme : Kind → Bool
  | .string | .identifier | .integer | .float => true
  | _ => false

/-- The line of a token in a listing. -/
def listing (t : Token) : String :=
  t.kind.name ++ " (" ++ (if showsLexeme t.kind then t.lexeme else "") ++ ") @" ++ t.position.text

/-- A token on its own, with its text escaped. -/
def text (t : Token) : String :=
  t.kind.name ++ " '" ++ Text.escape t.lexeme ++ "' @" ++ t.position.text

end Token
end Offside
