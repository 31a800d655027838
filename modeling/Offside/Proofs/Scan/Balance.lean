import Offside.Proofs.Parse.Program
import Offside.Proofs.Scan.Run

/-!
# The indentation of a source

The indents that a scan has added less the dedents are the levels that are open, and the dedents
at the end close them. So the tokens of a source up to its end mark have as many indents as
dedents.
-/

namespace Offside

theorem Kind.IsInk.rise_eq {k : Kind} (h : k.IsInk) : k.rise = 0 := by
  cases k with
  | newline | indent | dedent | eof => exact h.elim
  | _ => rfl

theorem sum_rise_dedents (widths : List Nat) :
    ((widths.map fun _ ↦ Kind.dedent).map Kind.rise).sum = -widths.length := by
  induction widths with
  | nil => rfl
  | cons w widths ih =>
      rw [List.map_cons, List.map_cons, List.sum_cons, ih, List.length_cons]
      show -1 + -(widths.length : Int) = -(widths.length + 1 : Nat)
      omega

/-- Opening a level adds one indent, and every dedent closes one level. -/
theorem Levels.sum_rise_settle (l : Levels) (w : Nat) :
    ((l.settle w).1.map Kind.rise).sum + l.widths.length = (l.settle w).2.widths.length := by
  by_cases hw : l.innermost < w
  · rw [settle_of_lt hw, List.length_cons]
    show (1 + 0 : Int) + l.widths.length = (l.widths.length + 1 : Nat)
    omega
  · rw [settle_of_le (Nat.not_lt.mp hw)]
    have hlength := congrArg List.length
      (List.takeWhile_append_dropWhile (p := (w < ·)) (l := l.widths))
    rw [List.length_append] at hlength
    show ((_ : List Kind).map Kind.rise).sum + _ = ((l.widths.dropWhile (w < ·)).length : Int)
    rw [sum_rise_dedents]
    omega

namespace Scan

variable {mode : Mode} {s t : Scan} {xs : List Token}

/-- The dedents at the end of the source. -/
def dedents (s : Scan) : List Token :=
  s.levels.close.map (Token.layout · s.reader.position)

theorem finish_eq (s : Scan) :
    s.finish = s.dedents ++ [Token.layout .eof s.reader.position] := by
  rw [finish, List.map_append]
  rfl

theorem kind_of_mem_dedents {s : Scan} {t : Token} (h : t ∈ s.dedents) : t.kind = .dedent := by
  obtain ⟨k, hk, rfl⟩ := List.mem_map.mp h
  obtain ⟨-, -, rfl⟩ := List.mem_map.mp hk
  rfl

theorem excess_map_layout (ks : List Kind) (p : Position) :
    excess (ks.map (Token.layout · p)) = (ks.map Kind.rise).sum := by
  rw [excess, List.map_map]
  rfl

theorem Step.excess_eq (h : Step mode s xs t) :
    excess xs + s.levels.widths.length = t.levels.widths.length := by
  cases h with
  | drop _ _ | dropLast _ _ => exact Int.zero_add _
  | @settle r l blanks _ _ _ _ _ _ =>
      rw [excess_map_layout]
      exact l.sum_rise_settle (indentWidth blanks)
  | piece _ _ htoken =>
      rcases Piece.token?_cases htoken with ⟨-, rfl⟩ | ⟨-, x, rfl, hx⟩ | ⟨-, x, rfl, hx⟩
      · exact Int.zero_add _
      · simp [hx, Kind.rise]
      · simp [hx.rise_eq]

theorem Reaches.excess_eq (h : Reaches mode s xs t) :
    excess xs + s.levels.widths.length = t.levels.widths.length := by
  induction h with
  | refl _ => exact Int.zero_add _
  | step hstep _ ih =>
      rw [excess_append, ← ih, ← hstep.excess_eq]
      omega

theorem excess_dedents (s : Scan) : excess s.dedents + s.levels.widths.length = 0 := by
  rw [dedents, excess_map_layout, Levels.close, sum_rise_dedents]
  omega

theorem content_append_finish {xs : List Token} (hxs : ∀ x ∈ xs, x.kind ≠ .eof) (s : Scan) :
    content (xs ++ s.finish) = xs ++ s.dedents := by
  have hall : ∀ t ∈ xs ++ s.dedents, t.kind ≠ .eof := by
    intro t ht
    rcases List.mem_append.mp ht with ht | ht
    · exact hxs t ht
    · simp [kind_of_mem_dedents ht]
  rw [finish_eq, ← List.append_assoc, content_append hall, content_cons_of_eof rfl,
    List.append_nil]

end Scan

/-- The tokens of a source are balanced. -/
theorem scan_balanced {mode : Mode} {source : String} {ts : List Token}
    (h : scan mode source = .ok ts) : excess (content ts) = 0 := by
  obtain ⟨xs, t, hreach, -, rfl⟩ := scan_eq_ok_iff.mp h
  rw [Scan.content_append_finish hreach.ne_eof, excess_append]
  have hopen := hreach.excess_eq
  have hclosed := t.excess_dedents
  have hstart : (Scan.start source).levels.widths.length = 0 := rfl
  omega

theorem run_eq_parse {mode : Mode} {source : String} {ts : List Token}
    (h : scan mode source = .ok ts) : run mode source = parse mode ts := by
  rw [run, h]
  rfl

theorem run_of_scan_error {mode : Mode} {source : String} {f : Fault}
    (h : scan mode source = .error f) : run mode source = .error f := by
  rw [run, h]
  rfl

theorem exists_scan_of_run {mode : Mode} {source : String} {p : Program}
    (h : run mode source = .ok p) : ∃ ts, scan mode source = .ok ts ∧ parse mode ts = .ok p := by
  cases hscan : scan mode source with
  | error f =>
      rw [run_of_scan_error hscan] at h
      cases h
  | ok ts => exact ⟨ts, rfl, run_eq_parse hscan ▸ h⟩

end Offside
