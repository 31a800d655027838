import Offside.Fault
import Offside.Source.Line
import Offside.Unicode.WhiteSpace

/-!
# Showing a fault in its source

A fault is shown with its name and its tip, the file and position, and, if the source has the
line, the line without the blanks around it and a row of dashes that ends in a caret under the
column. A column within the blanks at the front is marked at the first character shown.
-/

namespace Offside

/-- Writes `text` after as many `fill` as make it `width` characters long. -/
def padLeft (fill : Char) (width : Nat) (text : String) : String :=
  String.ofList (List.replicate (width - text.length) fill) ++ text

structure Excerpt where
  line : Nat
  /-- The line without the blanks around it. -/
  text : String
  /-- The length of the row of dashes and its caret. -/
  reach : Nat
  deriving DecidableEq, Repr

namespace Excerpt

def isLeadingBlank (c : Char) : Bool :=
  c = ' ' || c = '\t'

def ofLine (p : Position) (text : List Char) : Excerpt :=
  let removed := (text.takeWhile isLeadingBlank).length
  { line := p.line.toNat
    text := String.ofList
      (Text.dropEndWhile Unicode.isWhiteSpace (text.dropWhile isLeadingBlank))
    reach := max 1 (p.column.toNat - removed) }

/-- Three rows, under the number of the line as a gutter. -/
def render (e : Excerpt) : String :=
  let number := toString e.line
  let gutter := padLeft ' ' (number.length + 2) "|"
  gutter ++ "\n" ++ number ++ " | " ++ e.text ++ "\n" ++
    gutter ++ " " ++ padLeft '-' e.reach "^" ++ "\n"

end Excerpt

namespace Fault

def headline (f : Fault) : String :=
  match f.cause.tip? with
  | none => "Error: " ++ f.cause.name ++ "\n"
  | some tip => "Error: " ++ f.cause.name ++ " (" ++ tip ++ ")\n"

def excerpt? (f : Fault) (source : String) : Option Excerpt :=
  (Source.line? source.toList f.position.line.toNat).map (Excerpt.ofLine f.position)

def render (f : Fault) (source file : String) : String :=
  f.headline ++ "-> " ++ file ++ ":" ++ f.position.text ++ "\n" ++
    match f.excerpt? source with
    | none => ""
    | some e => e.render

end Fault
end Offside
