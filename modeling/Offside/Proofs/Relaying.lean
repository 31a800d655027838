import Offside.Proofs.Parse.Routine
import Offside.Proofs.Scan.Mode
import Offside.Proofs.Scan.Relaid

/-!
# Laying out again

Where the tokens of a source stand does not matter to what they mean. Parsing looks at their
positions only to pass them on, so the text that the tokens are laid out to means what the source
means, and it says it in one way: by four blanks for a level and one between two lexemes.
-/

namespace Offside

section

variable {f : Position → Position} {n : Nat}

/-- The program with its statements at other positions. It still starts where every program
starts. -/
def Program.moveBody (f : Position → Position) (p : Program) : Program :=
  { p with body := p.body.map (Stmt.mapPositions f) }

theorem program_tracked :
    (tracking f n).Same (Program.moveBody f) Parse.program Parse.program := by
  have hstatements : (tracking f n).Same (List.map (Stmt.mapPositions f))
      (Parse.here (·.statements .eof)) (Parse.here (·.statements .eof)) :=
    fun _ c _ _ ↦ (Routine.statements .eof).tracks_here f c
  apply Comparison.same_skipNewlines.bind
  intro _
  apply hstatements.bind
  intro body
  exact Comparison.same_pure (Program.mk body .start)

theorem sealTokens_map {ts : List Token} (hts : ts ≠ []) :
    Cursor.sealTokens (ts.map (Token.mapPosition f)) =
      (Cursor.sealTokens ts).map (Token.mapPosition f) := by
  let last := ts.getLast hts
  rw [Cursor.sealTokens, Cursor.sealTokens, List.getLast?_map,
    List.getLast?_eq_some_getLast hts]
  show (if last.kind = .eof then _ else _) = List.map _ (if last.kind = .eof then _ else _)
  by_cases hend : last.kind = .eof
  · rw [if_pos hend, if_pos hend]
  · rw [if_neg hend, if_neg hend, List.map_append]
    rfl

theorem ofTokens_move (mode : Mode) {ts : List Token} (hts : ts ≠ []) :
    Cursor.ofTokens mode (ts.map (Token.mapPosition f)) = (Cursor.ofTokens mode ts).move f := by
  have hkind : (fun t : Token ↦ decide (t.kind ≠ .eof)) ∘ Token.mapPosition f =
      fun t ↦ decide (t.kind ≠ .eof) := rfl
  obtain ⟨t, us, hstop⟩ : ∃ t us,
      (Cursor.sealTokens ts).dropWhile (·.kind ≠ .eof) = t :: us := by
    refine List.exists_cons_of_ne_nil fun hnil ↦ ?_
    obtain ⟨t, ht, heof⟩ := Cursor.exists_eof_mem_sealTokens ts
    have hne := List.dropWhile_eq_nil_iff.mp hnil t ht
    simp [heof] at hne
  simp only [Cursor.ofTokens, Cursor.move, sealTokens_map hts, List.takeWhile_map,
    List.dropWhile_map, hkind, hstop]
  rfl

/-- What the outcome is if the tokens are moved. -/
def moveOutcome (f : Position → Position) : Except Fault Program → Except Fault Program
  | .ok p => .ok (p.moveBody f)
  | .error e => .error (e.move f)

theorem parse_move (mode : Mode) {ts : List Token} (hts : ts ≠ []) :
    parse mode (ts.map (Token.mapPosition f)) = moveOutcome f (parse mode ts) := by
  let c := Cursor.ofTokens mode ts
  have hrun := program_tracked (f := f) c.current.kind c.limit_le_add_room rfl
  rw [parse, parse, ofTokens_move mode hts, Parse.apply, Parse.apply]
  generalize Parse.program c = x at hrun ⊢
  generalize Parse.program (c.move f) = y at hrun ⊢
  cases hrun with
  | ok _ => rfl
  | error _ => rfl

end

/-- The same program but for positions, or the same fault but for its position. -/
inductive SameOutcome : Except Fault Program → Except Fault Program → Prop
  | ok {p q : Program} (h : p.erase = q.erase) : SameOutcome (.ok p) (.ok q)
  | error {e f : Fault} (h : e.cause = f.cause) : SameOutcome (.error e) (.error f)

theorem sameOutcome_of_erase {x y : Except Fault Program}
    (h : moveOutcome (fun _ ↦ .unset) x = moveOutcome (fun _ ↦ .unset) y) : SameOutcome x y := by
  cases x with
  | ok p =>
      cases y with
      | ok q =>
          have hbody : p.moveBody _ = q.moveBody _ := Except.ok.inj h
          exact .ok (congrArg (fun r : Program ↦ { r with position := .unset }) hbody)
      | error e => cases h
  | error e =>
      cases y with
      | ok q => cases h
      | error f =>
          have hcause : (e.move _).cause = (f.move _).cause :=
            congrArg Fault.cause (Except.error.inj h)
          exact .error hcause

/-- Parsing does not depend on where the tokens stand. -/
theorem parse_of_erase_eq (mode : Mode) {ts us : List Token} (hts : ts ≠ [])
    (h : us.map Token.erase = ts.map Token.erase) :
    SameOutcome (parse mode us) (parse mode ts) := by
  have hus : us ≠ [] := by
    rintro rfl
    exact hts (List.map_eq_nil_iff.mp h.symm)
  apply sameOutcome_of_erase
  rw [← parse_move mode hus, ← parse_move mode hts, h]

/-- Laying out the tokens of a source gives a text with the same tokens, if no string was left
open, and so with the same meaning. -/
theorem run_relaid {mode : Mode} {source : String} {ts : List Token}
    (h : scan mode source = .ok ts) (hclosed : ∀ t ∈ ts, t.IsClosed) :
    (∃ us, scan .strict (relaid ts) = .ok us ∧ us.map Token.erase = ts.map Token.erase) ∧
      ∀ m, SameOutcome (run m (relaid ts)) (parse m ts) := by
  obtain ⟨us, hus, herase⟩ := scan_relaid h hclosed
  refine ⟨⟨us, hus, herase⟩, fun m ↦ ?_⟩
  have hts : ts ≠ [] := by
    obtain ⟨xs, s, -, -, rfl⟩ := scan_eq_ok_iff.mp h
    simp [Scan.finish_eq]
  have hrun : run m (relaid ts) = parse m us := by
    cases m with
    | strict => exact run_eq_parse hus
    | lenient => exact run_eq_parse (scan_loosen hus)
  rw [hrun]
  exact parse_of_erase_eq m hts herase

/-- The tab and the last line, whose width is that of no level, are both made regular. -/
theorem run_relaid_ragged :
    let source := "if x:\n\ty(\"#\")\n  z"
    let ts : List Token := [⟨.keyword .ifKw, "if", none, ⟨1, 1⟩⟩,
      ⟨.identifier, "x", some (.text "x"), ⟨1, 4⟩⟩, ⟨.mark .colon, ":", none, ⟨1, 5⟩⟩,
      ⟨.newline, "\n", none, ⟨1, 6⟩⟩, .layout .indent ⟨2, 1⟩,
      ⟨.identifier, "y", some (.text "y"), ⟨2, 2⟩⟩, ⟨.mark .openParen, "(", none, ⟨2, 3⟩⟩,
      ⟨.string, "\"#\"", some (.text "#"), ⟨2, 4⟩⟩, ⟨.mark .closeParen, ")", none, ⟨2, 7⟩⟩,
      ⟨.newline, "\n", none, ⟨2, 8⟩⟩, .layout .dedent ⟨3, 1⟩,
      ⟨.identifier, "z", some (.text "z"), ⟨3, 3⟩⟩, .layout .eof ⟨3, 4⟩]
    let text := "if x :\n    y ( \"#\" )\nz"
    scan .lenient source = .ok ts ∧ (∀ t ∈ ts, t.IsClosed) ∧ relaid ts = text ∧
      (∃ us, scan .strict text = .ok us ∧ us.map Token.erase = ts.map Token.erase) ∧
      ∀ m, SameOutcome (run m text) (parse m ts) := by
  intro source ts text
  have hscan : scan .lenient source = .ok ts := by decide +kernel
  have hclosed : ∀ t ∈ ts, t.IsClosed := by
    intro t ht hkind
    have hstring : ∀ t ∈ ts, t.kind = .string → t.lexeme.toList = ['"', '#', '"'] := by
      decide +kernel
    exact ⟨'"', _, hstring t ht hkind, .plain (by decide) (by decide) .close⟩
  have htext : relaid ts = text := by decide +kernel
  have h := run_relaid hscan hclosed
  rw [htext] at h
  exact ⟨hscan, hclosed, htext, h⟩

end Offside
