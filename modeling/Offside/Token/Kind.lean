import Offside.Token.Keyword
import Offside.Token.Mark

/-!
# Kinds of tokens

Besides numbers, strings, names, keywords and marks there are the tokens of the layout: the line
break that ends a logical line, the indent and the dedents around an indented block, and the mark
of the end, written `EOF` in listings.
-/

namespace Offside

inductive Kind where
  | integer | float | string | identifier
  | keyword (k : Keyword)
  | mark (m : Mark)
  | newline | indent | dedent | eof
  deriving DecidableEq, Repr

namespace Kind

/-- The name in listings of tokens. -/
def name : Kind → String
  | .integer => "Integer"
  | .float => "Float"
  | .string => "String"
  | .identifier => "Identifier"
  | .keyword k => k.name
  | .mark m => m.name
  | .newline => "Newline"
  | .indent => "Indent"
  | .dedent => "Dedent"
  | .eof => "EOF"

/-- The text of keywords and marks; the other kinds have no text of their own. -/
def spelling : Kind → String
  | .keyword k => k.spelling
  | .mark m => m.spelling
  | _ => ""

/-- What a message says it expects. -/
def description : Kind → String
  | .integer => "integer literal"
  | .float => "float literal"
  | .string => "string literal"
  | .identifier => "identifier"
  | .keyword k => "`" ++ k.spelling ++ "`"
  | .mark m => "`" ++ m.spelling ++ "`"
  | .newline => "line break"
  | .indent => "indent"
  | .dedent => "dedent"
  | .eof => "end of input"

def all : List Kind :=
  [.integer, .float, .string, .identifier] ++ Keyword.all.map .keyword ++ Mark.all.map .mark ++
    [.newline, .indent, .dedent, .eof]

theorem mem_all (k : Kind) : k ∈ all := by
  cases k <;> simp [all, Keyword.mem_all, Mark.mem_all]

def ofName? (name : String) : Option Kind :=
  all.find? (·.name = name)

end Kind
end Offside
