import Offside.Proofs.Grammar.Transport
import Offside.Proofs.Grammar.Writable
import Offside.Proofs.Parse.CompleteProgram

/-!
# What is written is parsed back

A tree is written as any tokens that the grammar reads as the tree, up to positions, in a layout
where a line break follows every simple statement. Blocks may be braced or indented and
parentheses put around any expression. However a tree is written, it is parsed back unless it
needs too many levels.
-/

namespace Offside

/-- The program, up to positions, is written as these tokens, which take `n` levels. -/
def Program.WrittenAs (p : Program) (n : Nat) (ts : List Token) : Prop :=
  ∃ q : Program, q.erase = p.erase ∧ q.Reads .written n ts

theorem Program.exists_writing {p : Program} (h : p.WellFormed) :
    ∃ n ts, p.WrittenAs n ts := by
  obtain ⟨ss, n, ts, hss, hread⟩ := Stmt.allWrites p.body h
  refine ⟨n, ts, ⟨ss, .start⟩, ?_, rfl, ts, .refl ts, ?_⟩
  · rw [Stmt.mapAllPositions_eq_map, Stmt.mapAllPositions_eq_map] at hss
    simp [erase, mapPositions, hss]
  · simpa using hread []

theorem Layout.written_carries_exact (mode : Mode) : written.Carries (exact mode) Eq Eq := by
  have hends : ∀ s us, firstKind us = .newline → Stmt.EndsBefore s (firstKind us) := by
    intro s us hnewline
    rw [hnewline]
    exact s.endsBefore_of_not_isInk id (.inr (.inl rfl))
  exact .of_map (f := id) nofun (fun _ _ _ _ ↦ rfl) (fun _ h ↦ h) (fun _ _ h ↦ h) hends

theorem firstKind_content (ts : List Token) : firstKind (content ts) = firstKind ts := by
  cases ts with
  | nil => rfl
  | cons t ts =>
      by_cases h : t.kind = .eof
      · simp [content, h]
      · rw [content_cons_of_ne h, firstKind_cons, firstKind_cons]

theorem Breaks.content {ts us : List Token} (h : Breaks ts us) :
    Breaks (content ts) (content us) := by
  induction h with
  | refl ts => exact .refl _
  | cons hkind _ ih =>
      rw [content_cons_of_ne (by simp [hkind])]
      exact .cons hkind ih

/-- A writing has no end mark. -/
theorem Layout.written_carries_content : written.Carries written
    (fun ts ts' ↦ content ts = ts') (fun ts ts' ↦ content ts = ts') := by
  have hends : ∀ (_ : Stmt) us, firstKind us = .newline → firstKind (content us) = .newline :=
    fun _ us hnewline ↦ (firstKind_content us).trans hnewline
  exact .of_map id (fun _ ts _ hne ↦ content_cons_of_ne hne ts)
    (fun ts hend ↦ (firstKind_content ts).trans hend) (fun _ _ h ↦ Breaks.content h) hends

/-- Every tree that can be meant can be written, and what is written is parsed back, up to
positions, exactly if its levels suffice. -/
theorem parse_written {p : Program} (hp : p.WellFormed) :
    (∃ n ts, p.WrittenAs n (content ts)) ∧
      ∀ mode n ts, p.WrittenAs n (content ts) →
        if n ≤ nestingLimit then ∃ q, parse mode ts = .ok q ∧ q.erase = p.erase
        else ∃ f, parse mode ts = .error f ∧ f.cause = .nestingTooDeep nestingLimit := by
  constructor
  · obtain ⟨n, ts, q, hq, hread⟩ := Program.exists_writing hp
    exact ⟨n, ts, q, hq, hread.carry Layout.written_carries_content (fun _ h ↦ h.symm) rfl⟩
  · rintro mode n ts ⟨q, hq, hread⟩
    have hexact : q.Reads (.exact mode) n (content ts) :=
      hread.carry (Layout.written_carries_exact mode) (fun _ h ↦ h.symm) rfl
    split
    · next hn => exact ⟨q, parse_eq_ok_of_reads hexact hn, hq⟩
    · next hn => exact parse_eq_error_of_reads hexact (Nat.not_le.mp hn)

/-- A conditional with one branch. -/
theorem parse_written_conditional :
    let p : Program := ⟨[.conditional .start
      [⟨.symbol .start "x", ⟨.start, [.pass .start]⟩⟩] none], .start⟩
    p.WellFormed ∧ (∃ n ts, p.WrittenAs n (content ts)) ∧
      ∀ mode n ts, p.WrittenAs n (content ts) →
        if n ≤ nestingLimit then ∃ q, parse mode ts = .ok q ∧ q.erase = p.erase
        else ∃ f, parse mode ts = .error f ∧ f.cause = .nestingTooDeep nestingLimit := by
  intro p
  have hp : p.WellFormed := ⟨⟨List.cons_ne_nil _ _, ⟨trivial, trivial⟩, trivial⟩, trivial⟩
  exact ⟨hp, parse_written hp⟩

end Offside
