import Offside.Scan.Levels
import Offside.Scan.Piece
import Offside.Source.Reader

/-!
# Scanning

From a source to its tokens. A scan either stands at the start of a line or within one. At the
start of a line it measures the blanks: a line that holds nothing more than blanks or a comment is
dropped whole, any other opens or closes levels of indentation. Within a line it takes one piece
at a time, and the line break sends it back to the start of a line. The end of the source closes
every open level.
-/

namespace Offside

structure Scan where
  reader : Reader
  levels : Levels
  /-- Whether the reader stands at the start of a line. -/
  lineStart : Bool
  deriving DecidableEq, Repr

namespace Scan

def start (source : String) : Scan :=
  ⟨Reader.ofString source, Levels.margin, true⟩

/-- What there is still to do: every step reads something or leaves the start of a line. -/
def potential (s : Scan) : Nat :=
  2 * s.reader.rest.length + s.lineStart.toNat

/-- Goes past a line without tokens. -/
def dropLine (s : Scan) (line rest : List Char) : Scan :=
  { s with reader := s.reader.past line rest }

/-- Layout tokens stand in the first column of the line that causes them. -/
def settle (mode : Mode) (s : Scan) (blanks rest : List Char) :
    Except Fault (List Token × Scan) :=
  let width := indentWidth blanks
  let position := s.reader.position.margin
  let (kinds, levels) := s.levels.settle width
  if mode.isStrict && levels.innermost ≠ width then
    .error ⟨.inconsistentDedent width, position⟩
  else .ok (kinds.map (Token.layout · position), ⟨s.reader.past blanks rest, levels, false⟩)

def startLine (mode : Mode) (s : Scan) : Except Fault (List Token × Scan) :=
  let blanks := s.reader.rest.takeWhile Piece.isBlank
  let after := s.reader.rest.dropWhile Piece.isBlank
  match after with
  | [] => .ok ([], s.dropLine blanks [])
  | c :: cs =>
      if c = '\n' then .ok ([], s.dropLine (blanks ++ [c]) cs)
      else if c = '#' then
        let comment := cs.takeWhile (· ≠ '\n')
        match cs.dropWhile (· ≠ '\n') with
        | [] => .ok ([], s.dropLine (blanks ++ c :: comment) [])
        | d :: ds => .ok ([], s.dropLine (blanks ++ c :: comment ++ [d]) ds)
      else s.settle mode blanks (c :: cs)

def readPiece (mode : Mode) (s : Scan) (c : Char) (cs : List Char) :
    Except Fault (List Token × Scan) :=
  let position := s.reader.position
  match Piece.at? c cs with
  | none => .error ⟨.unrecognisedCharacter c, position⟩
  | some p => match p.token? mode position with
    | .error cause => .error ⟨cause, position⟩
    | .ok token => .ok (token.toList,
        ⟨s.reader.past p.lexeme p.rest, s.levels, p.shape = .lineBreak⟩)

/-- One step of a scan whose remaining text is `c :: cs`: the tokens that it adds, and the scan
after it. -/
def step (mode : Mode) (s : Scan) (c : Char) (cs : List Char) :
    Except Fault (List Token × Scan) :=
  if s.lineStart then s.startLine mode else s.readPiece mode c cs

/-- The tokens at the end of the source. -/
def finish (s : Scan) : List Token :=
  (s.levels.close ++ [Kind.eof]).map (Token.layout · s.reader.position)

theorem length_dropWhile_le (p : Char → Bool) (cs : List Char) :
    (cs.dropWhile p).length ≤ cs.length :=
  (List.dropWhile_sublist p).length_le

theorem potential_lt_of_startLine {mode : Mode} {s t : Scan} {tokens : List Token}
    (hstart : s.lineStart = true) (hrest : s.reader.rest ≠ [])
    (h : s.startLine mode = .ok (tokens, t)) : t.potential < s.potential := by
  have hpos := List.length_pos_iff.mpr hrest
  have hle := length_dropWhile_le Piece.isBlank s.reader.rest
  simp only [startLine] at h
  split at h
  · cases h
    simp [potential, dropLine, Reader.past, hstart]
    omega
  · next c cs hafter =>
      rw [hafter, List.length_cons] at hle
      have hcs := length_dropWhile_le (· ≠ '\n') cs
      split at h
      · cases h
        simp [potential, dropLine, Reader.past, hstart]
        omega
      · split at h
        · split at h
          · cases h
            simp [potential, dropLine, Reader.past, hstart]
            omega
          · next d ds hds =>
              rw [hds, List.length_cons] at hcs
              cases h
              simp [potential, dropLine, Reader.past, hstart]
              omega
        · simp only [settle] at h
          split at h
          · cases h
          · cases h
            simp [potential, Reader.past, hstart]
            omega

theorem potential_lt_of_readPiece {mode : Mode} {s t : Scan} {tokens : List Token} {c : Char}
    {cs : List Char} (hrest : s.reader.rest = c :: cs)
    (h : s.readPiece mode c cs = .ok (tokens, t)) : t.potential < s.potential := by
  simp only [readPiece] at h
  split at h
  · cases h
  · next p hp =>
      have hlt := Piece.length_rest_lt hp
      split at h
      · cases h
      · cases h
        have hflag := Bool.toNat_le (decide (p.shape = .lineBreak))
        simp only [potential, Reader.past, hrest]
        omega

theorem potential_lt_of_step {mode : Mode} {s t : Scan} {tokens : List Token} {c : Char}
    {cs : List Char} (hrest : s.reader.rest = c :: cs)
    (h : s.step mode c cs = .ok (tokens, t)) : t.potential < s.potential := by
  unfold step at h
  split at h
  · next hstart => exact potential_lt_of_startLine hstart (by simp [hrest]) h
  · exact potential_lt_of_readPiece hrest h

/-- Scans to the end. The tokens found so far are given last token first. -/
def run (mode : Mode) (s : Scan) (found : List Token) : Except Fault (List Token) :=
  match hrest : s.reader.rest with
  | [] => .ok (found.reverse ++ s.finish)
  | c :: cs =>
      match hstep : s.step mode c cs with
      | .error fault => .error fault
      | .ok (tokens, next) =>
          have : next.potential < s.potential := potential_lt_of_step hrest hstep
          run mode next (tokens.reverse ++ found)
  termination_by s.potential

end Scan

/-- The tokens of a source. -/
def scan (mode : Mode) (source : String) : Except Fault (List Token) :=
  (Scan.start source).run mode []

end Offside
