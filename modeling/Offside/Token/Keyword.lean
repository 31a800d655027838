/-!
# Keywords

The reserved words. A keyword has a spelling, which is what stands in a source, and a name, by
which listings of tokens call it.
-/

namespace Offside

inductive Keyword where
  | defKw | letKw | constKw | ifKw | elifKw | elseKw | whileKw | forKw | inKw | returnKw | breakKw
  | continueKw | classKw | importKw | fromKw | asKw | passKw | trueKw | falseKw | noneKw | andKw
  | orKw | notKw
  deriving DecidableEq, Repr

namespace Keyword

def spelling : Keyword → String
  | .defKw => "def"
  | .letKw => "let"
  | .constKw => "const"
  | .ifKw => "if"
  | .elifKw => "elif"
  | .elseKw => "else"
  | .whileKw => "while"
  | .forKw => "for"
  | .inKw => "in"
  | .returnKw => "return"
  | .breakKw => "break"
  | .continueKw => "continue"
  | .classKw => "class"
  | .importKw => "import"
  | .fromKw => "from"
  | .asKw => "as"
  | .passKw => "pass"
  | .trueKw => "true"
  | .falseKw => "false"
  | .noneKw => "none"
  | .andKw => "and"
  | .orKw => "or"
  | .notKw => "not"

def name : Keyword → String
  | .defKw => "Def"
  | .letKw => "Let"
  | .constKw => "Const"
  | .ifKw => "If"
  | .elifKw => "Elif"
  | .elseKw => "Else"
  | .whileKw => "While"
  | .forKw => "For"
  | .inKw => "In"
  | .returnKw => "Return"
  | .breakKw => "Break"
  | .continueKw => "Continue"
  | .classKw => "Class"
  | .importKw => "Import"
  | .fromKw => "From"
  | .asKw => "As"
  | .passKw => "Pass"
  | .trueKw => "True"
  | .falseKw => "False"
  | .noneKw => "Null"
  | .andKw => "And"
  | .orKw => "Or"
  | .notKw => "Not"

def all : List Keyword :=
  [.defKw, .letKw, .constKw, .ifKw, .elifKw, .elseKw, .whileKw, .forKw, .inKw, .returnKw,
   .breakKw, .continueKw, .classKw, .importKw, .fromKw, .asKw, .passKw, .trueKw, .falseKw,
   .noneKw, .andKw, .orKw, .notKw]

theorem mem_all (k : Keyword) : k ∈ all := by
  cases k <;> decide

/-- The keyword with the given spelling, unless the word is not reserved. -/
def ofWord? (word : String) : Option Keyword :=
  all.find? (·.spelling = word)

theorem spelling_of_ofWord? {word : String} {k : Keyword} (h : ofWord? word = some k) :
    k.spelling = word := by
  simpa using List.find?_some h

theorem ofWord?_spelling (k : Keyword) : ofWord? k.spelling = some k := by
  cases k <;> decide +kernel

end Keyword
end Offside
