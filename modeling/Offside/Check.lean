import Offside.Fault.Excerpt
import Offside.Program
import Offside.Tree.Dump

/-!
# Checking a file

The command `check` scans and parses a file and reports whether that succeeds. On request the
report lists the tokens, even if they do not parse, and dumps the tree.
-/

namespace Offside

structure CheckOptions where
  mode : Mode := .lenient
  tokens : Bool := false
  tree : Bool := false
  deriving DecidableEq, Repr

/-- Why there is no text to check. -/
inductive ReadFault where
  | missing
  | directory
  | denied
  | notText
  | other (text : String)
  deriving DecidableEq, Repr

def ReadFault.text : ReadFault → String
  | .missing => "No such file or directory (os error 2)"
  | .directory => "Is a directory (os error 21)"
  | .denied => "Permission denied (os error 13)"
  | .notText => "stream did not contain valid UTF-8"
  | .other text => text

def decodeSource (bytes : ByteArray) : Except ReadFault String :=
  match String.fromUTF8? bytes with
  | some source => .ok source
  | none => .error .notText

structure Report where
  /-- The exit code. -/
  code : UInt8
  output : String
  errors : String
  deriving DecidableEq, Repr

def listTokens (tokens : List Token) : String :=
  tokens.foldl (fun out t ↦ out ++ t.listing ++ "\n") ""

def checkSource (options : CheckOptions) (path source : String) : Report :=
  match scan options.mode source with
  | .error fault => ⟨1, "", fault.render source path⟩
  | .ok tokens =>
      let listing := if options.tokens then listTokens tokens else ""
      match parse options.mode tokens with
      | .error fault => ⟨1, listing, fault.render source path⟩
      | .ok program =>
          let dump := if options.tree then program.dump.render ++ "\n" else ""
          ⟨0, listing ++ dump ++ path ++ ": OK\n", ""⟩

def check (options : CheckOptions) (path : String) : Except ReadFault String → Report
  | .ok source => checkSource options path source
  | .error fault => ⟨1, "", "Error: failed to read " ++ path ++ ": " ++ fault.text ++ "\n"⟩

/-- What the command line asks for. -/
structure CheckCommand where
  path : String
  options : CheckOptions
  deriving DecidableEq, Repr

namespace CheckCommand

/-- Reads options and one path in any order. An option may be given once. -/
def ofWords? (options : CheckOptions) (path : Option String) :
    List String → Option CheckCommand
  | [] => path.map (⟨·, options⟩)
  | word :: words =>
      if word = "--strict" then
        if options.mode.isStrict then none
        else ofWords? { options with mode := .strict } path words
      else if word = "--tokens" then
        if options.tokens then none else ofWords? { options with tokens := true } path words
      else if word = "--ast" then
        if options.tree then none else ofWords? { options with tree := true } path words
      else if word.startsWith "-" || path.isSome then none
      else ofWords? options (some word) words

def ofArguments? : List String → Option CheckCommand
  | "check" :: words => ofWords? {} none words
  | _ => none

end CheckCommand
end Offside
