/-!
# Marks

The operators and punctuation, each of one or two characters. Two characters that form a mark are
never read as two marks.
-/

namespace Offside

inductive Mark where
  | plus | dash | star | slash | percent | less | greater | assign | ampersand | pipe | caret
  | tilde | openParen | closeParen | openCurly | closeCurly | openBracket | closeBracket | comma
  | dot | colon | semicolon | equals | notEquals | lessEquals | greaterEquals | shiftLeft
  | shiftRight | starStar | slashSlash | arrow | plusAssign | minusAssign | starAssign
  | slashAssign
  deriving DecidableEq, Repr

namespace Mark

def spelling : Mark → String
  | .plus => "+"
  | .dash => "-"
  | .star => "*"
  | .slash => "/"
  | .percent => "%"
  | .less => "<"
  | .greater => ">"
  | .assign => "="
  | .ampersand => "&"
  | .pipe => "|"
  | .caret => "^"
  | .tilde => "~"
  | .openParen => "("
  | .closeParen => ")"
  | .openCurly => "\x7b"
  | .closeCurly => "\x7d"
  | .openBracket => "["
  | .closeBracket => "]"
  | .comma => ","
  | .dot => "."
  | .colon => ":"
  | .semicolon => ";"
  | .equals => "=="
  | .notEquals => "!="
  | .lessEquals => "<="
  | .greaterEquals => ">="
  | .shiftLeft => "<<"
  | .shiftRight => ">>"
  | .starStar => "**"
  | .slashSlash => "//"
  | .arrow => "->"
  | .plusAssign => "+="
  | .minusAssign => "-="
  | .starAssign => "*="
  | .slashAssign => "/="

def name : Mark → String
  | .plus => "Plus"
  | .dash => "Dash"
  | .star => "Star"
  | .slash => "Slash"
  | .percent => "Percent"
  | .less => "Less"
  | .greater => "Greater"
  | .assign => "Assignment"
  | .ampersand => "Ampersand"
  | .pipe => "Pipe"
  | .caret => "Caret"
  | .tilde => "Tilde"
  | .openParen => "OpenParen"
  | .closeParen => "CloseParen"
  | .openCurly => "OpenCurly"
  | .closeCurly => "CloseCurly"
  | .openBracket => "OpenBracket"
  | .closeBracket => "CloseBracket"
  | .comma => "Comma"
  | .dot => "Dot"
  | .colon => "Colon"
  | .semicolon => "Semicolon"
  | .equals => "Equals"
  | .notEquals => "NotEquals"
  | .lessEquals => "LessEquals"
  | .greaterEquals => "GreaterEquals"
  | .shiftLeft => "ShiftLeft"
  | .shiftRight => "ShiftRight"
  | .starStar => "StarStar"
  | .slashSlash => "SlashSlash"
  | .arrow => "Arrow"
  | .plusAssign => "PlusEquals"
  | .minusAssign => "MinusEquals"
  | .starAssign => "StarEquals"
  | .slashAssign => "SlashEquals"

def all : List Mark :=
  [.plus, .dash, .star, .slash, .percent, .less, .greater, .assign, .ampersand, .pipe, .caret,
   .tilde, .openParen, .closeParen, .openCurly, .closeCurly, .openBracket, .closeBracket, .comma,
   .dot, .colon, .semicolon, .equals, .notEquals, .lessEquals, .greaterEquals, .shiftLeft,
   .shiftRight, .starStar, .slashSlash, .arrow, .plusAssign, .minusAssign, .starAssign,
   .slashAssign]

theorem mem_all (m : Mark) : m ∈ all := by
  cases m <;> decide

/-- The mark of one character. -/
def ofChar? : Char → Option Mark
  | '+' => some .plus
  | '-' => some .dash
  | '*' => some .star
  | '/' => some .slash
  | '%' => some .percent
  | '<' => some .less
  | '>' => some .greater
  | '=' => some .assign
  | '&' => some .ampersand
  | '|' => some .pipe
  | '^' => some .caret
  | '~' => some .tilde
  | '(' => some .openParen
  | ')' => some .closeParen
  | '\x7b' => some .openCurly
  | '\x7d' => some .closeCurly
  | '[' => some .openBracket
  | ']' => some .closeBracket
  | ',' => some .comma
  | '.' => some .dot
  | ':' => some .colon
  | ';' => some .semicolon
  | _ => none

/-- The mark of two characters. -/
def ofPair? : Char → Char → Option Mark
  | '=', '=' => some .equals
  | '!', '=' => some .notEquals
  | '<', '=' => some .lessEquals
  | '>', '=' => some .greaterEquals
  | '<', '<' => some .shiftLeft
  | '>', '>' => some .shiftRight
  | '*', '*' => some .starStar
  | '/', '/' => some .slashSlash
  | '-', '>' => some .arrow
  | '+', '=' => some .plusAssign
  | '-', '=' => some .minusAssign
  | '*', '=' => some .starAssign
  | '/', '=' => some .slashAssign
  | _, _ => none

theorem spelling_of_ofChar? {c : Char} {m : Mark} (h : ofChar? c = some m) :
    m.spelling = String.ofList [c] := by
  revert h
  unfold ofChar?
  split <;> intro h <;> cases h <;> rfl

theorem spelling_of_ofPair? {c d : Char} {m : Mark} (h : ofPair? c d = some m) :
    m.spelling = String.ofList [c, d] := by
  revert h
  unfold ofPair?
  split <;> intro h <;> cases h <;> rfl

end Mark
end Offside
