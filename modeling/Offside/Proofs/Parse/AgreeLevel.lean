import Offside.Proofs.Parse.Agree
import Offside.Proofs.Parse.Program

/-!
# Strict and lenient levels

Every parser of a level agrees with itself in the two modes, from the expressions up to whole
programs. Only the parser of indented blocks looks at the mode, and the place where it does is
behind the last token of the block.
-/

namespace Offside

namespace Level

open Parse

/-- At the end strict parsing misses the dedent that closes the block. -/
theorem closing_compares (ss : List Stmt) {c d : Cursor} (hd : d.Ready) (hmode : d.mode = c.mode)
    (hstop : d.stop = c.stop) (hahead : d.ahead <:+ c.ahead)
    (hexcess : excess c.ahead = 1 + excess d.ahead)
    (hend : d.current.kind = .dedent ∨ d.ahead = []) :
    c.Compares (closing ss d) (closing ss d.loosen) := by
  by_cases hclose : d.current.kind = .dedent
  · obtain ⟨t, ts, hts, ht⟩ := hd.exists_cons hclose (by decide)
    rw [closing_of_dedent ss hts ht, closing_of_dedent ss (d := d.loosen) hts ht]
    have hsuffix : ts <:+ c.ahead := (List.suffix_cons t ts).trans (hts ▸ hahead)
    have hbalance : excess ts = excess c.ahead := by
      rw [hexcess, hts, excess_cons, ht, ← Int.add_assoc]
      exact (Int.zero_add _).symm
    exact .ok ⟨hmode, hstop, hsuffix, hbalance⟩
  · have hnil := hend.resolve_left hclose
    have hcurrent : d.current = c.stop := by
      rw [Cursor.current, hnil, ← hstop]
      rfl
    rw [closing_of_strict ss hd.mode hclose, hcurrent]
    refine .unclosed ?_
    rw [hexcess, hnil]
    exact Int.one_pos

/-- Behind the statements of a block stands what closes it, or nothing. -/
theorem statements_stops {r : Nat} {close : Kind} {c d : Cursor} {ss : List Stmt} (hc : c.Ready)
    (h : (ofRoom r).statements close c = .ok ss d) :
    d.current.kind = close ∨ d.ahead = [] := by
  replace h : (ofRoom r).statements close (c.facing c.ahead) = .ok ss d := h
  obtain ⟨n, us, -, ⟨hread, hend⟩, hd⟩ := statements_sound (ofRoom_readsPhrases .strict r)
    (ofRoom_block_sound r) close ⟨hc.stop, hc.mode⟩ h
  have hsuffix := hread.suffix (Layout.suffix_of_exact_gap .strict)
  subst hd
  rcases hend with hend | hend
  · exact .inl ((Cursor.kind_current_facing us hc.stop).trans hend)
  · refine .inr ?_
    by_contra hne
    exact firstKind_ne_eof (fun t ht ↦ hc.ahead t (hsuffix.subset ht)) hne hend

theorem statements_agrees {r : Nat} (hl : (ofRoom r).Compares modes (ofRoom r)) (close : Kind) :
    Parse.Agrees ((ofRoom r).statements close) := by
  have h := hl.statements close
  have hid : List.map (Stmt.mapPositions modes.place) = id := by
    show List.map (Stmt.mapPositions id) = id
    rw [Stmt.mapPositions_eq_id, List.map_id_fun]
  rw [hid] at h
  exact agrees_iff_same.mpr h

theorem indented_agrees {r : Nat} (hl : (ofRoom r).Compares modes (ofRoom r)) :
    Parse.Agrees (ofRoom r).indented := by
  intro c hc
  rw [indented_eq]
  by_cases hopen : c.current.kind = .indent
  · obtain ⟨t, ts, hts, ht⟩ := hc.exists_cons hopen (by decide)
    have hexcess : excess c.ahead = 1 + excess ts := by
      rw [hts, excess_cons, ht]
      rfl
    have hready : (c.facing ts).Ready :=
      ⟨hc.mode, hc.stop, fun u hu ↦ hc.ahead u (hts ▸ List.mem_cons_of_mem t hu)⟩
    have hrun (e : Cursor) (he : e.ahead = t :: ts) (f : Token → Parse (List Stmt)) :
        (expect .indent >>= f) e = f t (e.facing ts) := by
      have hcons := expect_bind_cons ht f e ts
      rwa [← he, Cursor.facing_ahead_self] at hcons
    rw [hrun c hts, hrun c.loosen hts]
    have hle : excess (c.facing ts).ahead ≤ excess c.ahead := by
      rw [hexcess]
      exact Int.le_add_of_nonneg_left Int.one_nonneg
    have hstatements := agrees_iff_same.mp (statements_agrees hl .dedent) _ hready rfl
    refine compares_bind hstatements rfl hle fun ss d hrun hd ↦ ?_
    have hahead : d.ahead <:+ c.ahead := hts ▸ hd.ahead.trans (List.suffix_cons t ts)
    have hbalance : excess c.ahead = 1 + excess d.ahead := hd.excess ▸ hexcess
    exact closing_compares ss (hready.of_follows hd) hd.mode hd.stop hahead hbalance
      (statements_stops hready hrun)
  · have hfails (e : Cursor) (he : e.current.kind ≠ .indent) (f : Token → Parse (List Stmt)) :
        (expect .indent >>= f) e =
          .error ⟨.unexpectedToken .indent e.current.describe, e.current.position⟩ e := by
      apply bind_of_error
      rw [expect_eq, if_neg he]
    rw [hfails c hopen, hfails c.loosen hopen]
    exact .error nofun

theorem blockBody_agrees {r : Nat} (hl : (ofRoom r).Compares modes (ofRoom r)) :
    modes.Same (Block.mapPositions id) (ofRoom r).blockBody (ofRoom r).blockBody := by
  apply hl.blockBody
  show modes.Same (List.map (Stmt.mapPositions id)) _ _
  rw [Stmt.mapPositions_eq_id, List.map_id_fun]
  exact agrees_iff_same.mp (indented_agrees hl)

theorem above_agrees {inner : Option Level} (hinner : ∀ l, inner = some l →
    l.Compares modes l ∧ modes.Same (Block.mapPositions id) l.blockBody l.blockBody) :
    (above inner).Compares modes (above inner) := by
  rw [above_eq_around]
  apply around_compares
  · exact fun p k ↦ entering_agrees fun l hl ↦ (hinner l hl).1.climb p k
  · exact fun k op hop ↦ entering_agrees fun l hl ↦ (hinner l hl).1.prefixed hop
  · exact fun k ↦ entering_agrees fun l hl ↦ (hinner l hl).2 k

theorem ofRoom_agrees (r : Nat) : (ofRoom r).Compares modes (ofRoom r) := by
  induction r with
  | zero => exact above_agrees nofun
  | succ r ih =>
      apply above_agrees
      rintro l ⟨⟩
      exact ⟨ih, blockBody_agrees ih⟩

end Level

theorem Parse.program_agrees : Agrees program := by
  have hstatements : Agrees (here (·.statements .eof)) := by
    intro c hc
    exact Level.statements_agrees (Level.ofRoom_agrees c.room) .eof hc
  refine agrees_iff_same.mpr ?_
  apply Comparison.same_skipNewlines.bind
  intro _
  apply (agrees_iff_same.mp hstatements).bind
  intro body
  exact Comparison.same_pure _

end Offside
