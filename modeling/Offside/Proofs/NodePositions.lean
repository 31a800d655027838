import Offside.Proofs.Grammar.Transport
import Offside.Proofs.Grammar.Walk
import Offside.Proofs.Parse.Program
import Offside.Proofs.Scan.Balance
import Offside.Proofs.Segmentation

/-!
# The positions of nodes

The tokens of a source stand in the order of their positions, an indent in the margin of its line
included. A walk over a parsed tree meets their order, so the positions of the nodes never go back.
-/

namespace Offside

namespace Position

/-- By line, and on the same line by column. -/
instance : LE Position :=
  ⟨fun p q ↦ p.line < q.line ∨ p.line = q.line ∧ p.column ≤ q.column⟩

theorem le_iff {p q : Position} :
    p ≤ q ↔ p.line.toNat < q.line.toNat ∨
      p.line.toNat = q.line.toNat ∧ p.column.toNat ≤ q.column.toNat := by
  rw [UInt32.toNat_inj]
  rfl

theorem le_refl (p : Position) : p ≤ p :=
  le_iff.mpr (.inr ⟨rfl, Nat.le_refl _⟩)

theorem le_trans {p q r : Position} (h : p ≤ q) (h' : q ≤ r) : p ≤ r := by
  rw [le_iff] at h h' ⊢
  omega

/-- The position counts the text before it. -/
structure Counts (p : Position) (before : List Char) : Prop where
  line : p.line.toNat = 1 + breaks before
  column : p.column.toNat = 1 + onLine before

/-- Not before the end of this text. -/
def NotBefore (p : Position) (before : List Char) : Prop :=
  1 + breaks before < p.line.toNat ∨
    1 + breaks before = p.line.toNat ∧ 1 + onLine before ≤ p.column.toNat

variable {p q : Position} {before more : List Char}

/-- More text leads to a later line, or farther on the same line. -/
theorem breaks_lt_append_or (before more : List Char) :
    breaks before < breaks (before ++ more) ∨
      breaks before = breaks (before ++ more) ∧ onLine before ≤ onLine (before ++ more) := by
  induction more using List.reverseRecOn with
  | nil => exact .inr (by simp)
  | append_singleton more c ih =>
      rw [← List.append_assoc]
      generalize before ++ more = text at ih ⊢
      by_cases hc : c = '\n'
      · left
        subst hc
        simp only [breaks, List.count_append, List.count_singleton_self] at ih ⊢
        omega
      · have hbreaks : breaks (text ++ [c]) = breaks text := by simp [breaks, hc]
        have honLine : onLine (text ++ [c]) = onLine text + 1 := by simp [onLine, hc]
        omega

theorem NotBefore.of_append (h : p.NotBefore (before ++ more)) : p.NotBefore before := by
  have happend := breaks_lt_append_or before more
  unfold NotBefore at h ⊢
  omega

theorem Counts.notBefore (h : p.Counts before) : p.NotBefore before :=
  .inr ⟨h.line.symm, h.column.ge⟩

theorem Counts.le (h : p.Counts before) (hq : q.NotBefore before) : p ≤ q := by
  rw [le_iff, h.line, h.column]
  exact hq

/-- The margin of the line is behind all that stands before the line. -/
theorem notBefore_margin (hp : p.NotBefore before) (hstart : onLine before = 0) :
    (Position.mk p.line 1).NotBefore before := by
  unfold NotBefore at hp ⊢
  rw [hstart]
  exact hp.imp id fun h ↦ ⟨h.1, Nat.le_refl 1⟩

theorem Counts.margin_le (h : p.Counts before) : Position.mk p.line 1 ≤ p := by
  rw [le_iff, h.column]
  exact .inr ⟨rfl, Nat.le_add_right 1 _⟩

end Position

/-- The dedents and the mark at the end of a source stand where the source ends, which need not be
a position in 32 bits. -/
def Token.Closes (t : Token) : Prop :=
  t.kind = .dedent ∨ t.kind = .eof

/-- The tokens stand in order, apart from those at the end. -/
def Ordered (ts : List Token) : Prop :=
  ts.Pairwise fun t u ↦ u.Closes ∨ t.position ≤ u.position

/-- A line break token starts a line. -/
theorem Lexeme.Denotes.onLine_eq_zero {mode : Mode} {rest w : List Char} {k : Kind}
    {literal : Option Literal} (h : Denotes mode rest k w literal) (hk : k = .newline)
    (before : List Char) : Position.onLine (before ++ w) = 0 := by
  subst hk
  cases h with
  | newline => simp [Position.onLine]

namespace Segmented

variable {mode : Mode} {before rest : List Char} {lineStart : Bool} {ts : List Token}

theorem notBefore (h : Segmented mode before lineStart ts rest)
    (hstart : lineStart = true → Position.onLine before = 0) :
    ∀ t ∈ ts, t.Closes ∨ t.position.NotBefore before := by
  -- Only where a line starts can indents stand, and nothing of that line has been read there.
  induction h with
  | @finish _ _ _ ks _ hks =>
      intro t ht
      obtain ⟨k, hk, rfl⟩ := List.mem_map.mp ht
      rcases List.mem_append.mp hk with hk | hk
      · exact .inl (.inl (hks k hk))
      · exact .inl (.inr (List.mem_singleton.mp hk))
  | @token before gap _ _ _ _ t _ _ hks _ hdenotes _ hline hcolumn _ ih =>
      have ht : t.position.NotBefore before :=
        (Position.Counts.notBefore ⟨hline, hcolumn⟩).of_append
      intro u hu
      rcases List.mem_append.mp hu with hu | hu
      · obtain ⟨k, hk, rfl⟩ := List.mem_map.mp hu
        exact .inr (Position.notBefore_margin ht (hstart (hks k hk).1))
      · rcases List.mem_cons.mp hu with rfl | hu
        · exact .inr ht
        · have hlater := ih (fun hk ↦ hdenotes.onLine_eq_zero (of_decide_eq_true hk) _) u hu
          exact hlater.imp id fun h ↦ h.of_append.of_append

theorem ordered (h : Segmented mode before lineStart ts rest) : Ordered ts := by
  induction h with
  | finish _ _ =>
      exact List.pairwise_map.mpr (List.pairwise_of_forall fun _ _ ↦ .inr (Position.le_refl _))
  | @token before gap _ _ _ ks t ts _ _ _ hdenotes _ hline hcolumn h ih =>
      have hcounts : t.position.Counts (before ++ gap) := ⟨hline, hcolumn⟩
      have hlater : ∀ u ∈ t :: ts, u.Closes ∨ t.position ≤ u.position := by
        intro u hu
        rcases List.mem_cons.mp hu with rfl | hu
        · exact .inr (Position.le_refl _)
        · have hu := h.notBefore (fun hk ↦ hdenotes.onLine_eq_zero (of_decide_eq_true hk) _) u hu
          exact hu.imp id fun h ↦ hcounts.le h.of_append
      refine List.pairwise_append.mpr ⟨?_, ?_, ?_⟩
      · exact List.pairwise_map.mpr (List.pairwise_of_forall fun _ _ ↦ .inr (Position.le_refl _))
      · exact List.pairwise_cons.mpr ⟨fun u hu ↦ hlater u (List.mem_cons_of_mem _ hu), ih⟩
      · intro l hl u hu
        obtain ⟨k, -, rfl⟩ := List.mem_map.mp hl
        exact (hlater u hu).imp id (Position.le_trans hcounts.margin_le)

end Segmented

/-- The tokens of a scan stand in order, from the start of the source on. -/
theorem scan_ordered {mode : Mode} {source : String} {ts : List Token}
    (hlength : source.toList.length < 2 ^ 32) (h : scan mode source = .ok ts) :
    Ordered ts ∧ ∀ t ∈ ts, t.Closes ∨ .start ≤ t.position := by
  obtain ⟨xs, t, hreach, hend, rfl⟩ := scan_eq_ok_iff.mp h
  have hseg : Segmented mode [] true (xs ++ t.finish) source.toList :=
    hreach.segmented hend rfl hlength
  have hstart : Position.start.Counts [] := ⟨rfl, rfl⟩
  exact ⟨hseg.ordered, fun t ht ↦ (hseg.notBefore (fun _ ↦ rfl) t ht).imp id hstart.le⟩

theorem Token.not_closes_of_isInk {t : Token} (h : t.kind.IsInk) : ¬ t.Closes :=
  fun hcloses ↦ hcloses.elim h.ne_dedent h.ne_eof

/-- No node is marked by a token at the end of the source. -/
theorem Node.OpensWith.not_closes {n : Node} {t : Token} (h : n.OpensWith t) : ¬ t.Closes := by
  have hink {k : Kind} (hkind : t.kind = k) (hk : k.IsInk) : ¬ t.Closes :=
    Token.not_closes_of_isInk (hkind ▸ hk)
  cases n with
  | program p => exact h.elim
  | stmt s =>
      rw [OpensWith] at h
      split at h
      · exact hink h trivial
      · exact Token.not_closes_of_isInk h.isInner.isInk
  | block b =>
      rcases h with h | h
      · exact hink h trivial
      · rintro (hkind | hkind) <;> cases h.symm.trans hkind
  | parameter p | type r => exact hink h.1 trivial
  | expr e => exact Token.not_closes_of_isInk h.1.isInner.isInk

namespace Meets

variable {L : Layout} {all ts us : List Token} {ns : List Node}

theorem exists_token (h : Meets L all ns ts us) :
    ∀ n ∈ ns, ∃ t ∈ ts, n.MarkedBy L all t ∧ n.position = t.position := by
  induction h with
  | done _ => exact nofun
  | pass t _ ih =>
      intro n hn
      obtain ⟨u, hu, hn⟩ := ih n hn
      exact ⟨u, List.mem_cons_of_mem t hu, hn⟩
  | meet hmarked hposition _ ih =>
      exact List.forall_mem_cons.mpr ⟨⟨_, List.mem_cons_self, hmarked, hposition⟩, ih⟩

/-- Nodes met along tokens in order have their positions in order. -/
theorem pairwise_position (h : Meets L all ns ts us) (hts : Ordered ts) :
    (ns.map Node.position).Pairwise (· ≤ ·) := by
  induction h with
  | done _ => exact .nil
  | pass _ _ ih => exact ih (List.pairwise_cons.mp hts).2
  | @meet n t ns ts us hmarked hposition h ih =>
      refine List.pairwise_cons.mpr ⟨?_, ih hts⟩
      intro p hp
      obtain ⟨m, hm, rfl⟩ := List.mem_map.mp hp
      obtain ⟨u, hu, hmark, hplace⟩ := h.exists_token m hm
      rw [hposition, hplace]
      rcases List.mem_cons.mp hu with rfl | hu
      · exact Position.le_refl _
      · exact ((List.pairwise_cons.mp hts).1 u hu).resolve_left hmark.opens.not_closes

end Meets

/-- Every node but the root of the program that a source is has the position of the token of the
scan that marks it. Walking over the program never goes back in the source, and it starts where the
source starts. -/
theorem run_positions {mode : Mode} {source : String} {p : Program}
    (hlength : source.toList.length < 2 ^ 32) (h : run mode source = .ok p) :
    ∃ ts, scan mode source = .ok ts ∧
      (∀ n ∈ (Node.program p).walk.tail, ∃ t ∈ ts,
        n.MarkedBy (.exact mode) (content ts) t ∧ n.position = t.position) ∧
      p.position = .start ∧
      ((Node.program p).walk.map Node.position).Pairwise (· ≤ ·) := by
  obtain ⟨ts, hscan, hparse⟩ := exists_scan_of_run h
  obtain ⟨n, -, hread⟩ := Program.Reads.of_parse_eq_ok hparse
  obtain ⟨hordered, hstart⟩ := scan_ordered hlength hscan
  have hcontent : (content ts).Sublist ts := List.takeWhile_sublist _
  have hmeets := hread.meets (Layout.suffix_of_exact_gap mode)
  have htoken : ∀ n ∈ (Node.program p).walk.tail, ∃ t ∈ ts,
      n.MarkedBy (.exact mode) (content ts) t ∧ n.position = t.position := by
    intro n hn
    obtain ⟨t, ht, hn⟩ := hmeets.exists_token n hn
    exact ⟨t, hcontent.subset ht, hn⟩
  refine ⟨ts, hscan, htoken, hread.1, ?_⟩
  have hwalk : (Node.program p).walk = .program p :: (Node.program p).walk.tail := by
    rw [Node.walk_eq, List.tail_cons]
  rw [hwalk]
  refine List.pairwise_cons.mpr ⟨?_, hmeets.pairwise_position (hordered.sublist hcontent)⟩
  intro q hq
  obtain ⟨m, hm, rfl⟩ := List.mem_map.mp hq
  obtain ⟨t, ht, hmark, hplace⟩ := htoken m hm
  rw [hplace, show (Node.program p).position = .start from hread.1]
  exact (hstart t ht).resolve_left hmark.opens.not_closes

/-- The sum has the position of its left operand, inside two parentheses. -/
theorem run_positions_grouped :
    let source := "def f(a: t):\n  return ((a) + 1)\n"
    let p : Program := ⟨[.fnDecl ⟨1, 1⟩ "f" [⟨"a", some ⟨"t", false, ⟨1, 10⟩⟩, none, ⟨1, 7⟩⟩] none
      ⟨⟨2, 1⟩, [.returning ⟨2, 3⟩ (some (.binary ⟨2, 12⟩ .add (.symbol ⟨2, 12⟩ "a")
        (.integer ⟨2, 17⟩ 1)))]⟩], .start⟩
    source.toList.length < 2 ^ 32 ∧ run .strict source = .ok p ∧
      ∃ ts, scan .strict source = .ok ts ∧
        (∀ n ∈ (Node.program p).walk.tail, ∃ t ∈ ts,
          n.MarkedBy (.exact .strict) (content ts) t ∧ n.position = t.position) ∧
        p.position = .start ∧
        ((Node.program p).walk.map Node.position).Pairwise (· ≤ ·) := by
  intro source p
  have hlength : source.toList.length < 2 ^ 32 := by decide
  let define : Token := ⟨.keyword .defKw, "def", none, ⟨1, 1⟩⟩
  let name : Token := ⟨.identifier, "f", some (.text "f"), ⟨1, 5⟩⟩
  let parameter : Token := ⟨.identifier, "a", some (.text "a"), ⟨1, 7⟩⟩
  let type : Token := ⟨.identifier, "t", some (.text "t"), ⟨1, 10⟩⟩
  let giving : Token := ⟨.keyword .returnKw, "return", none, ⟨2, 3⟩⟩
  let us : List Token := [define, name, ⟨.mark .openParen, "(", none, ⟨1, 6⟩⟩, parameter,
      ⟨.mark .colon, ":", none, ⟨1, 8⟩⟩, type, ⟨.mark .closeParen, ")", none, ⟨1, 11⟩⟩,
      ⟨.mark .colon, ":", none, ⟨1, 12⟩⟩, ⟨.newline, "\n", none, ⟨1, 13⟩⟩,
      .layout .indent ⟨2, 1⟩, giving, ⟨.mark .openParen, "(", none, ⟨2, 10⟩⟩,
      ⟨.mark .openParen, "(", none, ⟨2, 11⟩⟩, ⟨.identifier, "a", some (.text "a"), ⟨2, 12⟩⟩,
      ⟨.mark .closeParen, ")", none, ⟨2, 13⟩⟩, ⟨.mark .plus, "+", none, ⟨2, 15⟩⟩,
      ⟨.integer, "1", some (.integer 1), ⟨2, 17⟩⟩, ⟨.mark .closeParen, ")", none, ⟨2, 18⟩⟩,
      ⟨.newline, "\n", none, ⟨2, 19⟩⟩, .layout .dedent ⟨3, 1⟩]
  have hscan : scan .strict source = .ok (us ++ [.layout .eof ⟨3, 1⟩]) := by decide +kernel
  -- After `n` tokens `us.drop n` are left over.
  let sum : Expr := .binary ⟨2, 12⟩ .add (.symbol ⟨2, 12⟩ "a") (.integer ⟨2, 17⟩ 1)
  have hleft : (Phrase.suffixed (.symbol ⟨2, 12⟩ "a")).Reads 1 (us.drop 12) (us.drop 15) :=
    .group rfl (.nested (.loosen (.operand (.primary rfl)) (by decide))) rfl
  have hsum : sum.Reads 2 (us.drop 12) (us.drop 17) :=
    .nested (.loosen (.binary (.loosen (.operand hleft) (by decide)) rfl
      (.nested (.loosen (.operand (.primary rfl)) (by decide)))) (by decide))
  have hvalue : sum.Reads 3 (us.drop 11) (us.drop 18) :=
    .nested (.loosen (.operand (.group rfl hsum rfl)) (by decide))
  have hreturn : (Part.stmt (.returning ⟨2, 3⟩ (some sum))).Reads (.exact .strict) 3
      (us.drop 10) (us.drop 18) :=
    .simple (.returningValue (t := giving) rfl hvalue) (And.intro rfl rfl)
  have hblock : (Part.block ⟨⟨2, 1⟩, [.returning ⟨2, 3⟩ (some sum)]⟩).Reads (.exact .strict) 4
      (us.drop 9) [] :=
    .indented (t := .layout .indent ⟨2, 1⟩) rfl
      (.cons (Breaks.refl _) hreturn (Breaks.cons rfl (.refl _)) .nil) rfl
  have hparameter : Parameter.Reads ⟨"a", some ⟨"t", false, ⟨1, 10⟩⟩, none, ⟨1, 7⟩⟩ 0
      (us.drop 3) (us.drop 6) :=
    .mk (t := parameter) rfl (.some rfl (.mk (t := type) rfl)) .none
  have hbody : (Part.stmts p.body).Reads (.exact .strict) 4 us [] :=
    .cons (Breaks.refl _) (.function (t := define) (u := name) rfl rfl rfl
      (.some (.last hparameter)) rfl .none (.body rfl (Breaks.cons rfl (.refl _)) hblock))
      (Breaks.refl _) .nil
  have hparse : parse .strict (us ++ [.layout .eof ⟨3, 1⟩]) = .ok p :=
    parse_eq_ok_of_reads ⟨rfl, us, .refl us, hbody⟩ (by decide)
  have hrun : run .strict source = .ok p := by rw [run_eq_parse hscan, hparse]
  exact ⟨hlength, hrun, run_positions hlength hrun⟩

end Offside
