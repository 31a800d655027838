import Offside.Proofs.Parse.AgreeLevel
import Offside.Proofs.Scan.Balance
import Offside.Proofs.Scan.Mode

/-!
# Strictness

Strict reading only adds faults. On any tokens, what strict parsing adds is the fault of an
indented block that the tokens leave open, and no block is left open by the tokens of a source.
So for sources strictness is a matter of scanning.
-/

namespace Offside

theorem ofTokens_loosen (ts : List Token) :
    (Cursor.ofTokens .strict ts).loosen = Cursor.ofTokens .lenient ts := rfl

theorem Cursor.ofTokens_ready (ts : List Token) : (ofTokens .strict ts).Ready := by
  have hproper := ofTokens_proper .strict ts
  have hahead : (ofTokens .strict ts).ahead = content ts := congrArg ahead (ofTokens_eq .strict ts)
  refine ⟨hproper.2, hproper.1, fun t ht ↦ ?_⟩
  rw [hahead] at ht
  exact kind_ne_eof_of_mem_content ht

/-- What strict parsing comes to and what lenient parsing comes to. -/
theorem parse_compares (ts : List Token) :
    (∃ p, parse .strict ts = .ok p ∧ parse .lenient ts = .ok p) ∨
      (∃ f, parse .strict ts = .error f ∧ parse .lenient ts = .error f ∧
        ∀ found, f.cause ≠ .unexpectedToken .dedent found) ∨
      parse .strict ts = .error (Cursor.ofTokens .strict ts).stop.missingDedent ∧
        0 < excess (content ts) := by
  have hahead : (Cursor.ofTokens .strict ts).ahead = content ts :=
    congrArg Cursor.ahead (Cursor.ofTokens_eq .strict ts)
  have h := Parse.program_agrees (Cursor.ofTokens_ready ts)
  rw [ofTokens_loosen] at h
  rw [parse, parse, Parse.apply, Parse.apply, ← hahead]
  generalize Parse.program (Cursor.ofTokens .strict ts) = x at h ⊢
  generalize Parse.program (Cursor.ofTokens .lenient ts) = y at h ⊢
  cases h with
  | @ok p _ _ => exact .inl ⟨p, rfl, rfl⟩
  | @error f _ _ hf => exact .inr (.inl ⟨f, rfl, rfl, hf⟩)
  | unclosed hopen => exact .inr (.inr ⟨rfl, hopen⟩)

/-- On balanced tokens parsing does not depend on the mode, as no dedent is missing. -/
theorem parse_eq_of_balanced {ts : List Token} (h : excess (content ts) = 0) :
    parse .strict ts = parse .lenient ts ∧
      ∀ f, parse .strict ts = .error f → ∀ found, f.cause ≠ .unexpectedToken .dedent found := by
  rcases parse_compares ts with ⟨p, hstrict, hlenient⟩ | ⟨f, hstrict, hlenient, hf⟩ | ⟨-, hopen⟩
  · refine ⟨hstrict.trans hlenient.symm, fun f herror ↦ ?_⟩
    rw [hstrict] at herror
    cases herror
  · refine ⟨hstrict.trans hlenient.symm, fun g herror ↦ ?_⟩
    rw [hstrict] at herror
    cases herror
    exact hf
  · omega

theorem Cursor.find?_sealTokens (mode : Mode) (ts : List Token) :
    (sealTokens ts).find? (·.kind = .eof) = some (ofTokens mode ts).stop := by
  have hcontent : (content ts).find? (·.kind = .eof) = none := by
    rw [List.find?_eq_none]
    exact fun t ht heof ↦ kind_ne_eof_of_mem_content ht (of_decide_eq_true heof)
  have hstop := (ofTokens_proper mode ts).1
  rw [sealTokens_eq mode ts, List.find?_append, hcontent, Option.none_or,
    List.find?_cons_of_pos (by simpa using hstop)]

/-- On any tokens strict parsing only adds the fault of a dedent that is missing at the end. A
program that lenient parsing alone accepts has an indented block that is open at the first end
mark, and there strict parsing misses the dedent. -/
theorem parse_loosen (ts : List Token) :
    (∀ p, parse .strict ts = .ok p → parse .lenient ts = .ok p) ∧
      (∀ f, parse .strict ts = .error f → (∀ found, f.cause ≠ .unexpectedToken .dedent found) →
        parse .lenient ts = .error f) ∧
      ∀ p f, parse .lenient ts = .ok p → parse .strict ts = .error f →
        f.cause = .unexpectedToken .dedent "end of input" ∧
          ∃ stop, (Cursor.sealTokens ts).find? (·.kind = .eof) = some stop ∧
            f.position = stop.position := by
  rcases parse_compares ts with ⟨p, hstrict, hlenient⟩ | ⟨f, hstrict, hlenient, hf⟩ | ⟨hstrict, -⟩
  · refine ⟨fun q h ↦ ?_, fun f h ↦ ?_, fun q f _ h ↦ ?_⟩
    · rwa [hlenient, ← hstrict]
    · cases hstrict.symm.trans h
    · cases hstrict.symm.trans h
  · refine ⟨fun q h ↦ ?_, fun g h _ ↦ ?_, fun q g h _ ↦ ?_⟩
    · cases hstrict.symm.trans h
    · rwa [hlenient, ← hstrict]
    · cases hlenient.symm.trans h
  · have hstop := (Cursor.ofTokens_proper .strict ts).1
    have hdescribe : (Cursor.ofTokens .strict ts).stop.describe = "end of input" := by
      rw [Token.describe, hstop]
      rfl
    refine ⟨fun q h ↦ ?_, fun g h hg ↦ ?_, fun q g _ h ↦ ?_⟩
    · cases hstrict.symm.trans h
    · obtain rfl := Except.error.inj (hstrict.symm.trans h)
      exact absurd rfl (hg _)
    · obtain rfl := Except.error.inj (hstrict.symm.trans h)
      exact ⟨congrArg (Cause.unexpectedToken .dedent) hdescribe, _,
        Cursor.find?_sealTokens .strict ts, rfl⟩

/-- The end mark stands in front of the dedent that would close the block. -/
theorem parse_loosen_unclosed :
    let token (k : Kind) (lexeme : String) (column : UInt32) : Token :=
      ⟨k, lexeme, none, ⟨1, column⟩⟩
    let ts := [token (.keyword .ifKw) "if" 1, token .identifier "x" 4, token (.mark .colon) ":" 5,
      token .indent "" 6, token (.keyword .passKw) "pass" 7, token .eof "" 11, token .dedent "" 12]
    ∃ p f, parse .lenient ts = .ok p ∧ parse .strict ts = .error f ∧
      f.cause = .unexpectedToken .dedent "end of input" ∧
        ∃ stop, (Cursor.sealTokens ts).find? (·.kind = .eof) = some stop ∧
          f.position = stop.position := by
  intro token ts
  let p : Program := ⟨[.conditional ⟨1, 1⟩ [⟨.symbol ⟨1, 4⟩ "x", ⟨1, 6⟩, [.pass ⟨1, 7⟩]⟩] none],
    .start⟩
  have hlenient : parse .lenient ts = .ok p := rfl
  have hstrict : parse .strict ts = .error ⟨.unexpectedToken .dedent "end of input", ⟨1, 11⟩⟩ := rfl
  exact ⟨p, _, hlenient, hstrict, (parse_loosen ts).2.2 p _ hlenient hstrict⟩

/-- Strict reading differs from lenient reading only by its two faults of scanning. No block of a
source is closed by the end of its tokens alone: strict parsing misses no dedent, and a program
that lenient parsing accepts has all its indented blocks closed. -/
theorem run_loosen (source : String) :
    (∀ p, run .strict source = .ok p → run .lenient source = .ok p) ∧
      (∀ f, run .strict source = .error f → f.cause ≠ .unterminatedString →
        (∀ w, f.cause ≠ .inconsistentDedent w) → run .lenient source = .error f) ∧
      ∀ mode ts, scan mode source = .ok ts → parse .strict ts = parse .lenient ts ∧
        (∀ f, parse .strict ts = .error f → ∀ found, f.cause ≠ .unexpectedToken .dedent found) ∧
        ∀ p, parse .lenient ts = .ok p → ∃ n, p.Reads (.exact .strict) n (content ts) := by
  have hparse {mode : Mode} {ts : List Token} (h : scan mode source = .ok ts) :=
    parse_eq_of_balanced (scan_balanced h)
  have hrun {ts : List Token} (h : scan .strict source = .ok ts) :
      run .lenient source = run .strict source := by
    rw [run_eq_parse h, run_eq_parse (scan_loosen h), (hparse h).1]
  refine ⟨fun p h ↦ ?_, fun f h hstring hdedent ↦ ?_, fun mode ts h ↦ ?_⟩
  · cases hscan : scan .strict source with
    | ok ts => rw [hrun hscan, h]
    | error f =>
        rw [run_of_scan_error hscan] at h
        cases h
  · cases hscan : scan .strict source with
    | ok ts => rw [hrun hscan, h]
    | error g =>
        obtain rfl : g = f := by
          rw [run_of_scan_error hscan] at h
          exact Except.error.inj h
        have hcause : ¬ g.cause.OfStrictScan := by
          intro hstrict
          cases hg : g.cause with
          | unterminatedString => exact hstring hg
          | inconsistentDedent w => exact hdedent w hg
          | _ => simp [hg, Cause.OfStrictScan] at hstrict
        exact run_of_scan_error (scan_error_loosen hscan hcause)
  · obtain ⟨heq, hmissing⟩ := hparse h
    refine ⟨heq, hmissing, fun p hp ↦ ?_⟩
    obtain ⟨n, -, hread⟩ := Program.Reads.of_parse_eq_ok (heq.trans hp)
    exact ⟨n, hread⟩

end Offside
