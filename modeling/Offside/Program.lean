import Offside.Grammar.Statement
import Offside.Scan

/-!
# From a source to a program

A program is a list of statements up to the end mark. A source is scanned and its tokens parsed;
the first fault of either stage is the outcome.
-/

namespace Offside

def Parse.program : Parse Program := do
  skipNewlines
  let body ← here (·.statements .eof)
  return ⟨body, Position.start⟩

def parse (mode : Mode) (tokens : List Token) : Except Fault Program :=
  (Parse.program.apply (Cursor.ofTokens mode tokens)).1

def run (mode : Mode) (source : String) : Except Fault Program := do
  parse mode (← scan mode source)

end Offside
