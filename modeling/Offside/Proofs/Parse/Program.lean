import Mathlib.Data.List.TakeWhile
import Offside.Proofs.Parse.Statement

/-!
# Parsed blocks and programs

The levels are sound one after the other, from the innermost outwards, and so is the parser of
whole programs. What it parses is what stands before the first end mark.
-/

namespace Offside

/-- The tokens before the first end mark. -/
def content (ts : List Token) : List Token :=
  ts.takeWhile (·.kind ≠ .eof)

theorem kind_ne_eof_of_mem_content {ts : List Token} {t : Token} (h : t ∈ content ts) :
    t.kind ≠ .eof := by
  have hkind := List.mem_takeWhile_imp h
  exact of_decide_eq_true hkind

theorem content_cons_of_ne {t : Token} (h : t.kind ≠ .eof) (ts : List Token) :
    content (t :: ts) = t :: content ts := by
  simp [content, h]

theorem content_cons_of_eof {t : Token} (ht : t.kind = .eof) (us : List Token) :
    content (t :: us) = [] := by
  simp [content, ht]

theorem content_append {ts : List Token} (hts : ∀ t ∈ ts, t.kind ≠ .eof) (us : List Token) :
    content (ts ++ us) = ts ++ content us :=
  List.takeWhile_append_of_pos (by simpa using hts)

theorem firstKind_ne_eof {ts : List Token} (hts : ∀ t ∈ ts, t.kind ≠ .eof) (hne : ts ≠ []) :
    firstKind ts ≠ .eof := by
  cases ts with
  | nil => exact absurd rfl hne
  | cons t us => exact hts t (List.mem_cons_self ..)

namespace Level

open Parse

section

variable {mode : Mode} {l : Level} {r : Nat} (hl : l.ReadsPhrases mode r)
  (hb : Sound mode l.block (fun b ↦ (Part.block b).Reads (.exact mode)) r)

include hl hb

theorem blockBody_sound : ∀ ⦃c : Cursor⦄ ⦃ts b d⦄, c.Proper mode →
    l.blockBody (c.facing ts) = .ok b d →
      ∃ n us, n ≤ r ∧ (Part.block b).Reads (.exact mode) (n + 1) ts us ∧ d = c.facing us := by
  intro c ts b d hc h
  rw [blockBody, position_bind, kind_bind hc.1] at h
  split at h
  · next hopen =>
      obtain ⟨t, us, rfl, hopen⟩ := exists_cons_of_firstKind hopen (by decide)
      obtain ⟨ss, e, hbraced, h⟩ := exists_of_bind_eq_ok h
      obtain ⟨rfl, rfl⟩ := eq_of_pure_eq_ok h
      rw [braced, discard_bind, advance_bind_cons, skipNewlines_bind] at hbraced
      obtain ⟨ss, n, vs, hn, ⟨hss, -⟩, h⟩ := (statements_sound hl hb _).exists_of_bind hc hbraced
      rw [discard_bind] at h
      obtain ⟨u, ws, rfl, hclose, h⟩ := exists_of_expect_bind_eq_ok hc.1 (by decide) h
      rw [skipNewlines_bind] at h
      obtain ⟨rfl, rfl⟩ := eq_of_pure_eq_ok h
      exact ⟨n, skipBreaks ws, hn,
        .braced hopen (breaks_skipBreaks us) hss hclose (breaks_skipBreaks ws), rfl⟩
  · obtain ⟨ss, e, hindented, h⟩ := exists_of_bind_eq_ok h
    obtain ⟨rfl, rfl⟩ := eq_of_pure_eq_ok h
    rw [indented, discard_bind] at hindented
    obtain ⟨t, us, rfl, hopen, h⟩ := exists_of_expect_bind_eq_ok hc.1 (by decide) hindented
    obtain ⟨ss, n, vs, hn, ⟨hss, hend⟩, h⟩ := (statements_sound hl hb _).exists_of_bind hc h
    rw [kind_bind hc.1, get_bind] at h
    split at h
    · rw [discard_bind] at h
      obtain ⟨u, ws, rfl, hclose, h⟩ := exists_of_expect_bind_eq_ok hc.1 (by decide) h
      obtain ⟨rfl, rfl⟩ := eq_of_pure_eq_ok h
      exact ⟨n, ws, hn, .indented hopen hss hclose, rfl⟩
    · next hopenEnd =>
        obtain ⟨rfl, rfl⟩ := eq_of_pure_eq_ok h
        rw [Bool.or_eq_true, not_or, decide_eq_true_iff] at hopenEnd
        obtain ⟨hdedent, hstrict⟩ := hopenEnd
        have hmode : mode = .lenient := by
          cases mode with
          | lenient => rfl
          | strict => exact absurd (congrArg Mode.isStrict hc.2) hstrict
        exact ⟨n, vs, hn, .unclosed hmode hopen hss (hend.resolve_left hdedent), rfl⟩

end

theorem above_block_sound {mode : Mode} {r : Nat} {inner : Option Level}
    (hinner : ∀ l, inner = some l → ∃ k, r = k + 1 ∧ l.ReadsPhrases mode k ∧
      Sound mode l.block (fun b ↦ (Part.block b).Reads (.exact mode)) k) :
    Sound mode (above inner).block (fun b ↦ (Part.block b).Reads (.exact mode)) r := by
  intro c ts b d hc h
  obtain ⟨l, d, hl, hrun, rfl⟩ := exists_of_entering_eq_ok h
  obtain ⟨k, rfl, hl, hb⟩ := hinner l hl
  obtain ⟨n, us, hn, hread, rfl⟩ := blockBody_sound hl hb (c := c.deepen) hc hrun
  exact ⟨n + 1, us, Nat.succ_le_succ hn, hread, rfl⟩

theorem ofRoom_block_sound {mode : Mode} (r : Nat) :
    Sound mode (ofRoom r).block (fun b ↦ (Part.block b).Reads (.exact mode)) r := by
  induction r with
  | zero => exact above_block_sound nofun
  | succ r ih =>
      apply above_block_sound
      rintro l ⟨⟩
      exact ⟨r, rfl, ofRoom_readsPhrases mode r, ih⟩

end Level

theorem content_sealTokens (ts : List Token) : content (Cursor.sealTokens ts) = content ts := by
  unfold Cursor.sealTokens
  split
  · next h =>
      rw [List.getLast?_eq_none_iff] at h
      rw [h]
      rfl
  · next last h =>
      split
      · rfl
      · rw [content, List.takeWhile_append]
        split
        · next hall =>
            rw [content, List.takeWhile_sublist _ |>.eq_of_length hall]
            exact List.append_nil ts
        · rfl

theorem Cursor.ofTokens_proper (mode : Mode) (ts : List Token) :
    (ofTokens mode ts).Proper mode := by
  refine ⟨?_, rfl⟩
  rw [ofTokens]
  cases h : (sealTokens ts).dropWhile (·.kind ≠ .eof) with
  | nil => rfl
  | cons t us =>
      have := List.head?_dropWhile_not (·.kind ≠ .eof) (sealTokens ts)
      rw [h] at this
      simpa using this

theorem Cursor.ofTokens_eq (mode : Mode) (ts : List Token) :
    ofTokens mode ts = (ofTokens mode ts).facing (content ts) := by
  rw [← content_sealTokens ts]
  rfl

theorem Cursor.exists_eof_mem_sealTokens (ts : List Token) :
    ∃ t ∈ sealTokens ts, t.kind = .eof := by
  unfold sealTokens
  split
  · exact ⟨_, List.mem_singleton_self _, rfl⟩
  · next last h =>
      split
      · next hlast => exact ⟨last, List.mem_of_getLast? h, hlast⟩
      · exact ⟨_, List.mem_append_right _ (List.mem_singleton_self _), rfl⟩

/-- The tokens before the first end mark, the end mark and what follows it. -/
theorem Cursor.sealTokens_eq (mode : Mode) (ts : List Token) :
    sealTokens ts = content ts ++ (ofTokens mode ts).stop :: (ofTokens mode ts).beyond := by
  rw [← content_sealTokens ts]
  have hsplit : content (sealTokens ts) ++ (sealTokens ts).dropWhile (·.kind ≠ .eof) =
      sealTokens ts := List.takeWhile_append_dropWhile
  have hbehind : (ofTokens mode ts).stop :: (ofTokens mode ts).beyond =
      (sealTokens ts).dropWhile (·.kind ≠ .eof) := by
    unfold ofTokens
    cases hdrop : (sealTokens ts).dropWhile (·.kind ≠ .eof) with
    | nil =>
        obtain ⟨t, ht, heof⟩ := exists_eof_mem_sealTokens ts
        have hne := List.dropWhile_eq_nil_iff.mp hdrop t ht
        simp [heof] at hne
    | cons t us =>
        simp only [hdrop]
        rfl
  rw [hbehind, hsplit]

theorem parse_eq_ok_iff_program {mode : Mode} {ts : List Token} {p : Program} :
    parse mode ts = .ok p ↔
      ∃ d, Parse.program ((Cursor.ofTokens mode ts).facing (content ts)) = .ok p d := by
  rw [parse, Parse.apply, ← Cursor.ofTokens_eq]
  cases Parse.program (Cursor.ofTokens mode ts) with
  | ok q d => simp
  | error f d => simp

/-- Every parsed program is derived from all that stands before the first end mark. -/
theorem Program.Reads.of_parse_eq_ok {mode : Mode} {ts : List Token} {p : Program}
    (h : parse mode ts = .ok p) :
    ∃ n ≤ nestingLimit, p.Reads (.exact mode) n (content ts) := by
  obtain ⟨d, h⟩ := parse_eq_ok_iff_program.mp h
  have hc := Cursor.ofTokens_proper mode ts
  rw [Parse.program, Parse.skipNewlines_bind] at h
  obtain ⟨ss, e, hss, h⟩ := Parse.exists_of_bind_eq_ok h
  obtain ⟨rfl, rfl⟩ := Parse.eq_of_pure_eq_ok h
  obtain ⟨n, us, hn, ⟨hread, hend⟩, -⟩ :=
    Level.statements_sound (Level.ofRoom_readsPhrases mode _) (Level.ofRoom_block_sound _) _ hc hss
  have hsuffix : us <:+ content ts :=
    (hread.suffix (Layout.suffix_of_exact_gap mode)).trans (breaks_skipBreaks _).suffix
  have hnil : us = [] := by
    by_contra hne
    refine firstKind_ne_eof (fun t ht ↦ ?_) hne (hend.elim id id)
    exact kind_ne_eof_of_mem_content (hsuffix.subset ht)
  subst hnil
  exact ⟨n, hn, rfl, skipBreaks (content ts), breaks_skipBreaks _, hread⟩

end Offside
