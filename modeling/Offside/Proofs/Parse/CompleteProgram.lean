import Offside.Proofs.Parse.CompleteStatement
import Offside.Proofs.Parse.Program

/-!
# Derived programs are parsed

Whatever the grammar reads as a program, in the layout in which no statement could have been
longer, is parsed as that program, given room for its levels. The parser may stand behind line
breaks that the derivation passes over only later.
-/

namespace Offside

/-- No part of a conditional follows, even behind line breaks. -/
def ElseFree (ts : List Token) : Prop :=
  firstKind (skipBreaks ts) ≠ .keyword .elifKw ∧ firstKind (skipBreaks ts) ≠ .keyword .elseKw

/-- What may follow the statements of a program or a block. -/
def Kind.Closes (k : Kind) : Prop :=
  k = .mark .closeCurly ∨ k = .dedent ∨ k = .eof

namespace Part

variable {L : Layout}

theorem Reads.stmt_starts {s : Stmt} {n : Nat} {ts us : List Token}
    (h : (stmt s).Reads L n ts us) : (firstKind ts).StartsStmt := by
  cases h with
  | simple h _ => exact h.starts
  | function hkind _ _ _ _ _ _ | conditional hkind _ _ | whileLoop hkind _ _
  | forLoop hkind _ _ _ _ | classDecl hkind _ _ =>
      left
      rw [firstKind_cons, hkind]
      rfl

theorem Reads.body_starts {b : Block} {n : Nat} {ts us : List Token}
    (h : (Part.body b).Reads L n ts us) : firstKind ts = .mark .colon := by
  cases h with
  | body hcolon _ _ => exact hcolon

theorem Reads.block_starts {b : Block} {n : Nat} {ts us : List Token}
    (h : (block b).Reads L n ts us) :
    firstKind ts = .mark .openCurly ∨ firstKind ts = .indent := by
  cases h with
  | braced hopen _ _ _ _ => exact .inl hopen
  | indented hopen _ _ | unclosed _ hopen _ _ => exact .inr hopen

end Part

theorem Kind.StartsStmt.ne_newline {k : Kind} (h : k.StartsStmt) : k ≠ .newline := by
  rintro rfl
  simp [StartsStmt, Kind.statementForm?, StartsExpr, atomForm?, unaryOp?] at h

theorem Kind.StartsStmt.not_closes {k : Kind} (h : k.StartsStmt) : ¬k.Closes := by
  rintro (rfl | rfl | rfl) <;>
    simp [StartsStmt, Kind.statementForm?, StartsExpr, atomForm?, unaryOp?] at h

theorem Kind.Closes.ne_newline {k : Kind} (h : k.Closes) : k ≠ .newline := by
  rintro rfl
  simp [Closes] at h

/-- What does not follow behind line breaks does not follow the first few of them either. -/
theorem Breaks.firstKind_ne {k : Keyword} {ts us : List Token} (h : Breaks ts us)
    (hk : firstKind (skipBreaks ts) ≠ .keyword k) : firstKind us ≠ .keyword k := by
  intro hus
  have hne : firstKind us ≠ .newline := by
    rw [hus]
    exact nofun
  rw [h.skipBreaks_eq, skipBreaks_of_firstKind_ne hne] at hk
  exact hk hus

theorem Part.Reads.elseFree {mode : Mode} {ss : List Stmt} {n : Nat} {ts us : List Token}
    (h : (stmts ss).Reads (.exact mode) n ts us) (hclose : (firstKind us).Closes) :
    ElseFree ts := by
  cases h with
  | nil =>
      rw [ElseFree, skipBreaks_of_firstKind_ne hclose.ne_newline]
      rcases hclose with hclose | hclose | hclose <;> rw [hclose] <;> decide
  | cons hbefore h _ _ =>
      have hstart := h.stmt_starts
      rw [ElseFree, Breaks.skipBreaks_eq hbefore, skipBreaks_of_firstKind_ne hstart.ne_newline]
      constructor
      · intro hkind
        rw [hkind] at hstart
        simp [Kind.StartsStmt, Kind.statementForm?, Keyword.statementForm?, Kind.StartsExpr,
          Kind.atomForm?, Kind.unaryOp?] at hstart
      · intro hkind
        rw [hkind] at hstart
        simp [Kind.StartsStmt, Kind.statementForm?, Keyword.statementForm?, Kind.StartsExpr,
          Kind.atomForm?, Kind.unaryOp?] at hstart

namespace Part

open Parse Level

/-- How the parsers with room for `r` levels come out of a part on `n` levels. -/
def Comes (c : Cursor) (r : Nat) : Part → Nat → List Token → List Token → Prop
  | stmt s, n, ts, us => ElseFree us → ∃ us', Breaks us us' ∧
      Needs c.limit r n ((ofRoom r).statement (c.facing ts)) (.ok s (c.facing us'))
  | stmts ss, n, ts, us => ∀ close, close.Closes → firstKind us = close ∨ firstKind us = .eof →
      ∀ ts', Breaks ts ts' →
        Needs c.limit r n ((ofRoom r).statements close (c.facing ts')) (.ok ss (c.facing us))
  | block b, n, ts, us => ∃ us', Breaks us us' ∧
      Needs c.limit r n ((ofRoom r).block (c.facing ts)) (.ok b (c.facing us'))
  | body b, n, ts, us => ∃ us', Breaks us us' ∧
      Needs c.limit r n ((ofRoom r).body (c.facing ts)) (.ok b (c.facing us'))
  | branches bs, n, ts, us => firstKind (skipBreaks us) ≠ .keyword .elifKw →
      ∃ us', Breaks us us' ∧ Needs c.limit r n
        (separatedBy (.keyword .elifKw) (ofRoom r).branch (c.facing ts)) (.ok bs (c.facing us'))
  | otherwise o, n, ts, us => firstKind (skipBreaks us) ≠ .keyword .elseKw →
      ∀ ts', Breaks ts ts' → ∃ us', Breaks us us' ∧ Needs c.limit r n
        (after? (.keyword .elseKw) (ofRoom r).body (c.facing ts')) (.ok o (c.facing us'))

theorem branch_advances {c : Cursor} {r : Nat} (hc : c.stop.kind = .eof) :
    Advances (fun _ ↦ true) (ofRoom r).branch c := by
  have hbranch := branch_sound (ofRoom_readsPhrases c.mode r) (ofRoom_block_sound r)
  refine Sound.advances hbranch ?_ ⟨hc, rfl⟩ _
  intro b n ts us h
  exact h.length_lt (Layout.suffix_of_exact_gap c.mode) trivial

theorem item_advances {c : Cursor} {r : Nat} (hc : c.stop.kind = .eof) (q : Kind → Bool) :
    Advances q (ofRoom r).item c := by
  have hitem := item_sound (ofRoom_readsPhrases c.mode r) (ofRoom_block_sound r)
  exact Sound.advances hitem (Stmt.Item.consumes c.mode) ⟨hc, rfl⟩ q

/-- Where another statement has to stand, it is read and then the others. -/
theorem statements_of_ne {c : Cursor} {r : Nat} {ts : List Token} (hc : c.stop.kind = .eof)
    {close : Kind} (hclose : firstKind ts ≠ close) (hend : firstKind ts ≠ .eof) :
    (ofRoom r).statements close (c.facing ts) = (do
      let s ← (ofRoom r).statement
      skipNewlines
      (s :: ·) <$> (ofRoom r).statements close : Parse (List Stmt))
        (c.facing (skipBreaks ts)) := by
  have hskip : (ofRoom r).statement (c.facing ts) =
      (ofRoom r).statement (c.facing (skipBreaks ts)) := by
    rw [statement, skipNewlines_bind, skipNewlines_bind,
      skipBreaks_of_firstKind_ne (firstKind_skipBreaks_ne ts)]
  have hround := many_of_true hc (by simp) (item_advances (r := r) hc fun k ↦ k ≠ close && k ≠ .eof)
    (show (firstKind ts ≠ close && firstKind ts ≠ .eof) = true by simpa using ⟨hclose, hend⟩)
  rw [statements_eq, hround, item, bind_assoc, bind_eq, hskip, ← bind_eq]
  simp only [bind_assoc, pure_bind]

theorem conditional_eq (l : Level) : l.conditional = (do
    let start ← expect (.keyword .ifKw)
    let branches ← separatedBy (.keyword .elifKw) l.branch
    let otherwise ← after? (.keyword .elseKw) l.body
    return .conditional start.position branches otherwise) := by
  rw [Level.conditional]
  simp only [separatedBy, bind_assoc, pure_bind]

theorem parameters_needs {c : Cursor} {r n : Nat} (hc : c.Fits r) {parameters : List Parameter}
    {t : Token} {ts us : List Token} (h : Listed Parameter.Reads parameters n ts (t :: us))
    (hclose : t.kind = .mark .closeParen) :
    Needs c.limit r n (listUntil (.mark .closeParen) (ofRoom r).parameter (c.facing ts))
      (.ok parameters (c.facing (t :: us))) := by
  have hsound := parameter_sound (ofRoom_readsPhrases c.mode r)
  have hadvances := Sound.advances hsound Parameter.Reads.consumes (c := c) ⟨hc.1, rfl⟩
  refine listed_needs hc.1 (F := fun us ↦ firstKind us = .mark .comma ∨
    firstKind us = .mark .closeParen) (hadvances _) (fun _ _ _ _ ↦ parameter_needs hc)
    (fun _ _ ↦ .inl) h (.inr hclose) ?_ hclose (by decide)
  intro parameters n ts us hparts
  have hname : ∀ {p : Parameter} {n : Nat} {ts us : List Token}, Parameter.Reads p n ts us →
      firstKind ts = .identifier := by
    rintro p n ts us ⟨hname, -, -⟩
    exact hname
  cases hparts with
  | last hpart =>
      rw [hname hpart]
      decide
  | more hpart _ _ =>
      rw [hname hpart]
      decide

theorem Reads.comes {mode : Mode} {part : Part} {n : Nat} {ts us : List Token}
    (h : part.Reads (.exact mode) n ts us) {c : Cursor} {r : Nat} (hc : c.Fits r)
    (hmode : c.mode = mode) : part.Comes c r n ts us := by
  induction h generalizing c r with
  | @simple s n ts us h hends =>
      intro _
      exact ⟨skipBreaks us, breaks_skipBreaks us, simple_needs hc h hends⟩
  | @function t u v w parameters returns b n m k ts us vs ws hkind hname hopen hparameters hclose
      hreturns hbody ih =>
      intro _
      obtain ⟨ws', hws, hbody'⟩ := ih hc hmode
      refine ⟨ws', hws, ?_⟩
      rw [statement_of_form hc (by rw [hkind]; rfl), formed, Level.function,
        expect_bind_cons hkind, identifier_bind_cons hname, discard_bind, expect_bind_cons hopen]
      refine (parameters_needs hc hparameters hclose).bind_trans ?_
      rw [discard_bind, expect_bind_cons hclose]
      refine (optionalType_needs hc hreturns ?_).bind_trans (hbody'.bind_eq rfl)
      rintro -
      rw [hbody.body_starts]
      decide
  | @conditional t bs o n m ts us vs hkind hbranches hotherwise ihl ihr =>
      rintro ⟨helif, helse⟩
      have helif' : firstKind (skipBreaks us) ≠ .keyword .elifKw := by
        cases hotherwise with
        | noElse => exact helif
        | «else» hkind _ =>
            rw [skipBreaks_cons_of_ne (by rw [hkind]; decide), firstKind_cons, hkind]
            decide
      obtain ⟨us', hus, hbranches'⟩ := ihl hc hmode helif'
      obtain ⟨vs', hvs, hotherwise'⟩ := ihr hc hmode helse us' hus
      refine ⟨vs', hvs, ?_⟩
      rw [statement_of_form hc (by rw [hkind]; rfl), formed, conditional_eq,
        expect_bind_cons hkind]
      exact hbranches'.bind_trans (hotherwise'.bind_eq rfl)
  | @whileLoop t e b n m ts us vs hkind hcondition hbody ih =>
      intro _
      obtain ⟨vs', hvs, hbody'⟩ := ih hc hmode
      refine ⟨vs', hvs, ?_⟩
      rw [statement_of_form hc (by rw [hkind]; rfl), formed, Level.whileLoop,
        expect_bind_cons hkind]
      have hstop : Stops .lowest us := Phrase.stops_of_kind hbody.body_starts (by decide)
      exact (expression_needs hc hcondition hstop).bind_trans (hbody'.bind_eq rfl)
  | @forLoop t u v e b n m ts us vs hkind hname hin hiterable hbody ih =>
      intro _
      obtain ⟨vs', hvs, hbody'⟩ := ih hc hmode
      refine ⟨vs', hvs, ?_⟩
      rw [statement_of_form hc (by rw [hkind]; rfl), formed, Level.forLoop,
        expect_bind_cons hkind, identifier_bind_cons hname, discard_bind, expect_bind_cons hin]
      have hstop : Stops .lowest us := Phrase.stops_of_kind hbody.body_starts (by decide)
      exact (expression_needs hc hiterable hstop).bind_trans (hbody'.bind_eq rfl)
  | @classDecl t u b n ts us hkind hname hbody ih =>
      intro _
      obtain ⟨us', hus, hbody'⟩ := ih hc hmode
      refine ⟨us', hus, ?_⟩
      rw [statement_of_form hc (by rw [hkind]; rfl), formed, Level.classDecl,
        expect_bind_cons hkind, identifier_bind_cons hname]
      exact hbody'.bind_eq rfl
  | @branch e b n m ts us vs hcondition hbody ih =>
      intro helif
      obtain ⟨vs', hvs, hbody'⟩ := ih hc hmode
      refine ⟨vs', hvs, separatedBy_last hc.1 ?_ (hvs.firstKind_ne helif)⟩
      have hstop : Stops .lowest us := Phrase.stops_of_kind hbody.body_starts (by decide)
      exact (expression_needs hc hcondition hstop).bind_trans (hbody'.bind_eq rfl)
  | @elif t e b bs n m k ts us vs ws hcondition hbody hkind hothers ihl ihr =>
      intro helif
      obtain ⟨vs', hvs, hbody'⟩ := ihl hc hmode
      obtain rfl := hvs.eq_of_ne (by simp [hkind])
      obtain ⟨ws', hws, hothers'⟩ := ihr hc hmode helif
      refine ⟨ws', hws, separatedBy_more hc.1 (branch_advances hc.1) (by decide) ?_ hkind hothers'⟩
      have hstop : Stops .lowest us := Phrase.stops_of_kind hbody.body_starts (by decide)
      exact (expression_needs hc hcondition hstop).bind_trans (hbody'.bind_eq rfl)
  | @noElse ts =>
      intro helse ts' hts
      refine ⟨ts', hts, ?_⟩
      rw [after?_of_ne hc.1 (hts.firstKind_ne helse)]
      exact Needs.refl _
  | @«else» t b n ts us hkind hbody ih =>
      intro _ ts' hts
      obtain rfl := hts.eq_of_ne (by simp [hkind])
      obtain ⟨us', hus, hbody'⟩ := ih hc hmode
      refine ⟨us', hus, ?_⟩
      rw [after?_of_eq hc.1 hkind, map_eq_pure_bind]
      exact hbody'.bind_eq rfl
  | @body t b n ts us vs hcolon hgap h ih =>
      obtain ⟨vs', hvs, h'⟩ := ih hc hmode
      refine ⟨vs', hvs, ?_⟩
      have hstart : firstKind us ≠ .newline := by
        rcases h.block_starts with hopen | hopen <;> rw [hopen] <;> decide
      rw [Level.body, discard_bind, expect_bind_cons hcolon, skipNewlines_bind,
        Breaks.skipBreaks_eq hgap, skipBreaks_of_firstKind_ne hstart]
      exact h'
  | @braced t u ss n ts us vs ws hopen hgap h hclose hafter ih =>
      refine ⟨skipBreaks vs, hafter.skipBreaks_eq ▸ breaks_skipBreaks ws, ?_⟩
      rw [ofRoom_eq]
      apply entering_needs hc
      rintro r rfl
      rw [blockBody, position_bind, kind_bind (c := c.deepen) hc.1, firstKind_cons, if_pos hopen]
      refine Needs.bind_eq (d := c.deepen.facing (skipBreaks vs)) (a := ss) ?_ rfl
      rw [Level.braced, discard_bind, advance_bind_cons, skipNewlines_bind]
      have hss := ih hc.deepen hmode _ (.inl rfl) (.inl hclose) (skipBreaks ts)
        (Breaks.skipBreaks_eq hgap ▸ breaks_skipBreaks us)
      refine hss.bind_eq ?_
      rw [discard_bind, expect_bind_cons hclose, skipNewlines_bind]
      rfl
  | @indented t u ss n ts us hopen h hclose ih =>
      refine ⟨us, .refl us, ?_⟩
      rw [ofRoom_eq]
      apply entering_needs hc
      rintro r rfl
      rw [blockBody, position_bind, kind_bind (c := c.deepen) hc.1, firstKind_cons,
        if_neg (by rw [hopen]; decide)]
      refine Needs.bind_eq (d := c.deepen.facing us) (a := ss) ?_ rfl
      rw [Level.indented, discard_bind, expect_bind_cons hopen]
      have hss := ih hc.deepen hmode _ (.inr (.inl rfl)) (.inl hclose) ts (.refl ts)
      refine hss.bind_eq ?_
      rw [kind_bind (c := c.deepen) hc.1, get_bind, firstKind_cons, if_pos (by simp [hclose]),
        discard_bind, expect_bind_cons hclose]
      rfl
  | @unclosed t ss n ts us hlenient hopen h hend ih =>
      refine ⟨us, .refl us, ?_⟩
      rw [ofRoom_eq]
      apply entering_needs hc
      rintro r rfl
      rw [blockBody, position_bind, kind_bind (c := c.deepen) hc.1, firstKind_cons,
        if_neg (by rw [hopen]; decide)]
      refine Needs.bind_eq (d := c.deepen.facing us) (a := ss) ?_ rfl
      rw [Level.indented, discard_bind, expect_bind_cons hopen]
      have hss := ih hc.deepen hmode _ (.inr (.inl rfl)) (.inr hend) ts (.refl ts)
      have hgo : ¬((firstKind us = .dedent || (c.deepen.facing us).mode.isStrict) = true) := by
        rw [Cursor.mode_facing, Cursor.mode_deepen, hend, hmode, show mode = .lenient from hlenient]
        decide
      refine hss.bind_eq ?_
      rw [kind_bind (c := c.deepen) hc.1, get_bind]
      rw [if_neg hgo]
      rfl
  | @nil ts =>
      intro close hclose hend ts' hts
      have hne : firstKind ts ≠ .newline := by
        rcases hend with hend | hend <;> rw [hend]
        · exact hclose.ne_newline
        · decide
      obtain rfl : ts' = ts := by
        cases hts with
        | refl _ => rfl
        | cons hnewline _ => exact absurd hnewline hne
      rw [statements_eq, many_of_false hc.1 (by rcases hend with hend | hend <;> simp [hend])]
      exact Needs.refl _
  | @cons s ss n m ts us vs ws xs hbefore h hafter hothers ihl ihr =>
      intro close hclose hend ts' hts
      have hstart := h.stmt_starts
      have hts' : skipBreaks ts' = us := by
        rw [← hts.skipBreaks_eq, Breaks.skipBreaks_eq hbefore,
          skipBreaks_of_firstKind_ne hstart.ne_newline]
      have hxs : (firstKind xs).Closes := by
        rcases hend with hend | hend <;> rw [hend]
        · exact hclose
        · exact .inr (.inr rfl)
      have hvs : skipBreaks vs = skipBreaks ws := Breaks.skipBreaks_eq hafter
      have helse : ElseFree vs := by
        rw [ElseFree, hvs]
        exact hothers.elseFree hxs
      obtain ⟨vs', hvs', h'⟩ := ihl hc hmode helse
      have hnext : firstKind ts' ≠ close ∧ firstKind ts' ≠ .eof := by
        by_cases hnewline : firstKind ts' = .newline
        · rw [hnewline]
          exact ⟨hclose.ne_newline.symm, by decide⟩
        · rw [← skipBreaks_of_firstKind_ne hnewline, hts']
          exact ⟨fun h ↦ hstart.not_closes (h ▸ hclose),
            fun h ↦ hstart.not_closes (h ▸ .inr (.inr rfl))⟩
      have hws : Breaks ws (skipBreaks vs') := by
        rw [← hvs'.skipBreaks_eq, hvs]
        exact breaks_skipBreaks ws
      rw [statements_of_ne hc.1 hnext.1 hnext.2, hts']
      refine h'.bind_trans ?_
      rw [skipNewlines_bind, map_eq_pure_bind]
      exact (ihr hc hmode close hclose hend _ hws).bind_eq rfl

end Part

theorem parse_eq_error_iff_program {mode : Mode} {ts : List Token} {f : Fault} :
    parse mode ts = .error f ↔
      ∃ d, Parse.program ((Cursor.ofTokens mode ts).facing (content ts)) = .error f d := by
  rw [parse, Parse.apply, ← Cursor.ofTokens_eq]
  cases Parse.program (Cursor.ofTokens mode ts) with
  | ok q d => simp
  | error f d => simp

theorem Cursor.room_facing_ofTokens (mode : Mode) (ts us : List Token) :
    ((ofTokens mode ts).facing us).room = nestingLimit :=
  Nat.sub_zero nestingLimit

theorem Program.Reads.comes {mode : Mode} {ts : List Token} {p : Program} {n : Nat}
    (h : p.Reads (.exact mode) n (content ts)) :
    Needs nestingLimit nestingLimit n
      (Parse.program ((Cursor.ofTokens mode ts).facing (content ts)))
      (.ok p ((Cursor.ofTokens mode ts).facing [])) := by
  obtain ⟨body, position⟩ := p
  obtain ⟨hposition, us, hgap, hbody⟩ := h
  obtain rfl : position = .start := hposition
  have hc : (Cursor.ofTokens mode ts).Fits nestingLimit :=
    ⟨(Cursor.ofTokens_proper mode ts).1, Nat.le_of_eq (Nat.zero_add _)⟩
  have hus : Breaks us (skipBreaks (content ts)) :=
    Breaks.skipBreaks_eq hgap ▸ breaks_skipBreaks us
  have hrun := hbody.comes hc rfl .eof (.inr (.inr rfl)) (.inl rfl) _ hus
  rw [Parse.program, Parse.skipNewlines_bind]
  refine Needs.bind_eq (a := body) (d := (Cursor.ofTokens mode ts).facing []) ?_ rfl
  rwa [Parse.here, Parse.get_bind, Cursor.room_facing_ofTokens]

/-- What is derived on few enough levels is parsed. -/
theorem parse_eq_ok_of_reads {mode : Mode} {ts : List Token} {p : Program} {n : Nat}
    (h : p.Reads (.exact mode) n (content ts)) (hn : n ≤ nestingLimit) :
    parse mode ts = .ok p :=
  parse_eq_ok_iff_program.mpr ⟨_, h.comes.eq hn⟩

/-- What is derived on too many levels is rejected for that. -/
theorem parse_eq_error_of_reads {mode : Mode} {ts : List Token} {p : Program} {n : Nat}
    (h : p.Reads (.exact mode) n (content ts)) (hn : nestingLimit < n) :
    ∃ f, parse mode ts = .error f ∧ f.cause = .nestingTooDeep nestingLimit := by
  obtain ⟨f, d, herror, hcause⟩ := h.comes.fails hn
  exact ⟨f, parse_eq_error_iff_program.mpr ⟨d, herror⟩, hcause⟩

/-- The parser accepts exactly what is derived on few enough levels. -/
theorem parse_eq_ok_iff {mode : Mode} {ts : List Token} {p : Program} :
    parse mode ts = .ok p ↔ ∃ n ≤ nestingLimit, p.Reads (.exact mode) n (content ts) := by
  constructor
  · exact Program.Reads.of_parse_eq_ok
  · rintro ⟨n, hn, h⟩
    exact parse_eq_ok_of_reads h hn

end Offside
