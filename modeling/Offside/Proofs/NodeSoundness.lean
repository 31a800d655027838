import Offside.Proofs.Grammar.Word
import Offside.Proofs.NodePositions
import Offside.Proofs.Scan.Indents

/-!
# What is known of every node

The names in a program are the lexemes of identifiers, so they are words of the lexical grammar and
no keywords. Whole numbers come without a sign, a conditional has its first branch and a list of
imported items its first item. No type is optional, as no syntax says so. A block that an indent
opens has a statement, because a written token stands behind the indent.
-/

namespace Offside

/-- A word of the lexical grammar that is not reserved. -/
def IsName (s : String) : Prop :=
  Lexeme.IsWord s.toList ∧ ∀ k : Keyword, k.spelling ≠ s

def Expr.names : Expr → List String
  | .symbol _ name | .member _ _ name => [name]
  | _ => []

def Stmt.names : Stmt → List String
  | .varDecl _ name _ _ _ | .fnDecl _ name _ _ _ | .forLoop _ name _ _ | .classDecl _ name _ =>
      [name]
  | .importing _ module items localName => module :: (items.getD [] ++ localName.toList)
  | _ => []

namespace Node

/-- The names in the node, without those in the nodes below it. -/
def names : Node → List String
  | program _ | block _ => []
  | stmt s => s.names
  | parameter p => [p.name]
  | type t => [t.name]
  | expr e => e.names

/-- What holds of the values and parts of a node besides its names. -/
def Shaped : Node → Prop
  | expr (.integer _ value) => 0 ≤ value
  | stmt (.conditional _ branches _) => branches ≠ []
  | stmt (.importing _ _ (some items) _) => items ≠ []
  | type t => t.optional = false
  | _ => True

structure Sound (n : Node) : Prop where
  names : ∀ s ∈ n.names, IsName s
  shape : n.Shaped

end Node

/-- What a tree takes from a token for granted. -/
structure Token.Sound (t : Token) : Prop where
  name : t.kind = .identifier → IsName t.lexeme
  integer : t.kind = .integer → ∃ m : Nat, t.literal = some (.integer m)

theorem Token.Scanned.sound {mode : Mode} {t : Token} (h : t.Scanned mode) : t.Sound := by
  cases h with
  | layout hk p => rcases hk with rfl | rfl | rfl <;> exact ⟨nofun, nofun⟩
  | lexeme hlexeme h =>
      obtain ⟨kind, lexeme, literal, position⟩ := t
      cases h with
      | identifier hword hfree =>
          refine ⟨fun _ ↦ ?_, nofun⟩
          rw [show lexeme = String.ofList _ from hlexeme]
          refine ⟨by rwa [String.toList_ofList], fun k hk ↦ hfree k ?_⟩
          rw [hk, String.toList_ofList]
      | integer h => exact ⟨nofun, fun _ ↦ ⟨_, rfl⟩⟩
      | _ => exact ⟨nofun, nofun⟩

theorem Expr.sound_of_ofToken {t : Token} {e : Expr} (ht : t.Sound) (h : ofToken t = .ok e) :
    (Node.expr e).Sound := by
  unfold ofToken at h
  split at h
  · next hkind =>
      obtain ⟨m, hm⟩ := ht.integer hkind
      rw [hm] at h
      cases h
      exact ⟨List.forall_mem_nil _, Int.natCast_nonneg m⟩
  · repeat' split at h
    all_goals cases h
    all_goals exact ⟨List.forall_mem_nil _, trivial⟩
  · split at h
    all_goals cases h
    all_goals exact ⟨List.forall_mem_nil _, trivial⟩
  · cases h
    exact ⟨List.forall_mem_nil _, trivial⟩
  · cases h
    exact ⟨List.forall_mem_nil _, trivial⟩
  · cases h
    exact ⟨List.forall_mem_nil _, trivial⟩
  · next hkind =>
      cases h
      exact ⟨List.forall_mem_singleton.mpr (ht.name hkind), trivial⟩
  · cases h

/-- The expression of the phrase is sound. -/
def Phrase.Sound : Phrase → Prop
  | tier _ e | nested _ e | suffixed e => (Node.expr e).Sound
  | list _ | items _ => True

theorem Phrase.Reads.sound {ph : Phrase} {n : Nat} {ts us : List Token} (h : ph.Reads n ts us)
    (hts : ∀ t ∈ ts, t.Sound) : ph.Sound := by
  induction h with
  | nested _ ih | looser _ ih | operand _ ih => exact ih hts
  | group _ _ _ ih => exact ih fun t ht ↦ hts t (List.mem_cons_of_mem _ ht)
  | primary h => exact Expr.sound_of_ofToken (hts _ List.mem_cons_self) h
  | member hobject _ hname _ =>
      have hu := hts _ (hobject.suffix.subset (List.mem_cons_of_mem _ List.mem_cons_self))
      exact ⟨List.forall_mem_singleton.mpr (hu.name hname), trivial⟩
  | binary _ _ _ _ _ | unary _ _ _ | array _ _ _ _ | call _ _ _ _ _ _ | subscript _ _ _ _ _ _ =>
      exact ⟨List.forall_mem_nil _, trivial⟩
  | last _ _ | more _ _ _ _ _ | none | some _ _ => trivial

section

variable {n : Nat} {ts us : List Token} (hts : ∀ t ∈ ts, t.Sound)

include hts

theorem Separated.names {items : List String} (h : Separated (Named Token.lexeme) items n ts us) :
    items ≠ [] ∧ ∀ s ∈ items, IsName s := by
  induction h with
  | last hpart =>
      cases hpart with
      | mk hkind =>
          exact ⟨List.cons_ne_nil _ _,
            List.forall_mem_singleton.mpr ((hts _ List.mem_cons_self).name hkind)⟩
  | more hpart _ _ ih =>
      cases hpart with
      | mk hkind =>
          have hothers := ih fun t ht ↦
            hts t (List.mem_cons_of_mem _ (List.mem_cons_of_mem _ ht))
          exact ⟨List.cons_ne_nil _ _,
            List.forall_mem_cons.mpr ⟨(hts _ List.mem_cons_self).name hkind, hothers.2⟩⟩

theorem Optionally.names {k : Kind} {name : Option String}
    (h : Optionally k (Named Token.lexeme) name n ts us) : ∀ s ∈ name.toList, IsName s := by
  cases h with
  | none => exact List.forall_mem_nil _
  | some _ hpart =>
      cases hpart with
      | mk hkind =>
          have hname := hts _ (List.mem_cons_of_mem _ List.mem_cons_self)
          exact List.forall_mem_singleton.mpr (hname.name hkind)

theorem Stmt.Simple.sound {s : Stmt} (h : s.Simple n ts us) : (Node.stmt s).Sound := by
  cases h with
  | expression _ | assignment _ _ _ | returning _ | returningValue _ _ | breaking _
  | continuing _ | pass _ => exact ⟨List.forall_mem_nil _, trivial⟩
  | binding _ hname _ _ =>
      have hu := hts _ (List.mem_cons_of_mem _ List.mem_cons_self)
      exact ⟨List.forall_mem_singleton.mpr (hu.name hname), trivial⟩
  | importing _ hmodule hlocal =>
      obtain ⟨-, hu⟩ := List.forall_mem_cons.mp hts
      obtain ⟨hu, hts⟩ := List.forall_mem_cons.mp hu
      exact ⟨List.forall_mem_cons.mpr ⟨hu.name hmodule, hlocal.names hts⟩, trivial⟩
  | fromImport _ hmodule _ hitems hlocal =>
      obtain ⟨-, hu⟩ := List.forall_mem_cons.mp hts
      obtain ⟨hu, hv⟩ := List.forall_mem_cons.mp hu
      obtain ⟨-, hts⟩ := List.forall_mem_cons.mp hv
      obtain ⟨hne, hnames⟩ := hitems.names hts
      have hlocal := hlocal.names fun t ht ↦
        hts t ((Separated.shrinks (Named.shrinks _) hitems).subset ht)
      exact ⟨List.forall_mem_cons.mpr ⟨hu.name hmodule,
        List.forall_mem_append.mpr ⟨hnames, hlocal⟩⟩, hne⟩

theorem Part.Reads.stmt_sound {L : Layout} {s : Stmt} (h : (Part.stmt s).Reads L n ts us) :
    (Node.stmt s).Sound := by
  cases h with
  | simple h _ => exact h.sound hts
  | function _ hname _ _ _ _ _ | forLoop _ hname _ _ _ | classDecl _ hname _ =>
      have hu := hts _ (List.mem_cons_of_mem _ List.mem_cons_self)
      exact ⟨List.forall_mem_singleton.mpr (hu.name hname), trivial⟩
  | conditional _ hbranches _ => exact ⟨List.forall_mem_nil _, hbranches.branches_ne_nil⟩
  | whileLoop _ _ _ => exact ⟨List.forall_mem_nil _, trivial⟩

/-- A node is sound if the tokens are from which it is read. -/
theorem Node.Reads.sound {L : Layout} {m : Node} (h : m.Reads L n ts us) : m.Sound := by
  cases m with
  | program _ | block _ => exact ⟨List.forall_mem_nil _, trivial⟩
  | stmt s => exact Part.Reads.stmt_sound hts h
  | parameter p =>
      cases h with
      | mk hname _ _ =>
          exact ⟨List.forall_mem_singleton.mpr ((hts _ List.mem_cons_self).name hname), trivial⟩
  | type t =>
      cases h with
      | mk hname =>
          exact ⟨List.forall_mem_singleton.mpr ((hts _ List.mem_cons_self).name hname), rfl⟩
  | expr e => exact Phrase.Reads.sound h hts

end

/-- Behind an indent with a written token behind it stands a block with a statement. -/
theorem Part.Reads.body_ne_nil {L : Layout} {b : Block} {n : Nat} {t u : Token}
    {ts us : List Token} (h : (Part.block b).Reads L n (t :: u :: ts) us) (ht : t.kind = .indent)
    (hu : u.kind.IsInk) : b.body ≠ [] := by
  rintro hnil
  cases h with
  | braced hopen _ _ _ _ => cases ht.symm.trans hopen
  | indented _ h hclose =>
      obtain rfl : _ = [] := hnil
      cases h with
      | nil => exact hu.ne_dedent hclose
  | unclosed _ _ h hend =>
      obtain rfl : _ = [] := hnil
      cases h with
      | nil => exact hu.ne_eof hend

/-- A block that is marked by an indent of the source has a statement. -/
theorem Node.MarkedBy.body_ne_nil {mode : Mode} {source : String} {L : Layout} {ts : List Token}
    {b : Block} {t : Token} (h : (Node.block b).MarkedBy L (content ts) t)
    (hscan : scan mode source = .ok ts) (ht : t.kind = .indent) : b.body ≠ [] := by
  obtain ⟨n, whole, us, rest, ⟨before, hbefore⟩, hread, hfront⟩ := h.reads
  obtain rfl : whole = t :: rest := hfront
  obtain ⟨u, vs, rfl, hu⟩ := exists_ink_behind_indent hscan hbefore.symm ht
  exact Part.Reads.body_ne_nil hread ht hu

/-- Every name in the program that a source is, is a word that is not reserved, its whole numbers
are not negative, its conditionals have branches and its lists of imported items have items, and
none of its types is optional. Every block that has the position of an indent has a statement. -/
theorem run_nodes_sound {mode : Mode} {source : String} {p : Program}
    (h : run mode source = .ok p) :
    ∃ ts, scan mode source = .ok ts ∧ (∀ n ∈ (Node.program p).walk, n.Sound) ∧
      ∀ b, .block b ∈ (Node.program p).walk →
        (∃ t ∈ ts, (Node.block b).MarkedBy (.exact mode) (content ts) t ∧
          b.position = t.position ∧ (t.kind = .indent → b.body ≠ [])) ∧
        (source.toList.length < 2 ^ 32 →
          ∀ t ∈ ts, t.kind = .indent → t.position = b.position → b.body ≠ []) := by
  obtain ⟨ts, hscan, hparse⟩ := exists_scan_of_run h
  obtain ⟨n, -, hread⟩ := Program.Reads.of_parse_eq_ok hparse
  have hcontent : ∀ t ∈ content ts, t ∈ ts := fun t ht ↦ (List.takeWhile_sublist _).subset ht
  have htokens : ∀ t ∈ content ts, t.Sound := fun t ht ↦
    (scan_scanned hscan t (hcontent t ht)).sound
  have hmarked : ∀ m ∈ (Node.program p).walk, m = .program p ∨ ∃ t ∈ ts,
      m.MarkedBy (.exact mode) (content ts) t ∧ m.position = t.position := by
    intro m hm
    rw [Node.walk_eq] at hm
    refine (List.mem_cons.mp hm).imp_right fun hm ↦ ?_
    have hmeets := hread.meets (Layout.suffix_of_exact_gap mode)
    obtain ⟨t, ht, hmark⟩ := hmeets.exists_token m (by rwa [Node.walk_eq])
    exact ⟨t, hcontent t ht, hmark⟩
  refine ⟨ts, hscan, fun m hm ↦ ?_, fun b hb ↦ ?_⟩
  · rcases hmarked m hm with rfl | ⟨t, -, hmark, -⟩
    · exact ⟨List.forall_mem_nil _, trivial⟩
    · obtain ⟨k, whole, us, rest, hwhole, hreads, -⟩ := hmark.reads
      exact hreads.sound fun t ht ↦ htokens t (hwhole.subset ht)
  · obtain ⟨t, ht, hmark, hposition⟩ := (hmarked _ hb).resolve_left nofun
    have hindented := hmark.body_ne_nil hscan
    refine ⟨⟨t, ht, hmark, hposition, hindented⟩, fun hlength u hu hkind hplace ↦ ?_⟩
    rcases hmark.opens with hcurly | hindent
    · have hink : t.kind.IsInk := hcurly ▸ trivial
      exact absurd (hplace.trans hposition) (position_ne_of_isInk hlength hscan hu ht hkind hink)
    · exact hindented hindent

/-- An import under another name, and a block behind an indent. -/
theorem run_nodes_sound_import :
    let source := "from m import a as b\nif a.c:\n  pass\n"
    let p : Program := ⟨[.importing ⟨1, 1⟩ "m" (some ["a"]) (some "b"),
      .conditional ⟨2, 1⟩ [⟨.member ⟨2, 4⟩ (.symbol ⟨2, 4⟩ "a") "c",
        ⟨⟨3, 1⟩, [.pass ⟨3, 3⟩]⟩⟩] none], .start⟩
    run .strict source = .ok p ∧ ∀ n ∈ (Node.program p).walk, n.Sound := by
  intro source p
  let start : Token := ⟨.keyword .fromKw, "from", none, ⟨1, 1⟩⟩
  let module : Token := ⟨.identifier, "m", some (.text "m"), ⟨1, 6⟩⟩
  let item : Token := ⟨.identifier, "a", some (.text "a"), ⟨1, 15⟩⟩
  let localName : Token := ⟨.identifier, "b", some (.text "b"), ⟨1, 20⟩⟩
  let choosing : Token := ⟨.keyword .ifKw, "if", none, ⟨2, 1⟩⟩
  let member : Token := ⟨.identifier, "c", some (.text "c"), ⟨2, 6⟩⟩
  let passing : Token := ⟨.keyword .passKw, "pass", none, ⟨3, 3⟩⟩
  let us : List Token := [start, module, ⟨.keyword .importKw, "import", none, ⟨1, 8⟩⟩, item,
    ⟨.keyword .asKw, "as", none, ⟨1, 17⟩⟩, localName, ⟨.newline, "\n", none, ⟨1, 21⟩⟩, choosing,
    ⟨.identifier, "a", some (.text "a"), ⟨2, 4⟩⟩, ⟨.mark .dot, ".", none, ⟨2, 5⟩⟩, member,
    ⟨.mark .colon, ":", none, ⟨2, 7⟩⟩, ⟨.newline, "\n", none, ⟨2, 8⟩⟩,
    .layout .indent ⟨3, 1⟩, passing, ⟨.newline, "\n", none, ⟨3, 7⟩⟩, .layout .dedent ⟨4, 1⟩]
  have hscan : scan .strict source = .ok (us ++ [.layout .eof ⟨4, 1⟩]) := by decide +kernel
  have himport : (Part.stmt (.importing ⟨1, 1⟩ "m" (some ["a"]) (some "b"))).Reads (.exact .strict)
      0 us (us.drop 6) :=
    .simple (.fromImport (t := start) (u := module) rfl rfl rfl (.last (.mk (t := item) rfl))
      (.some rfl (.mk (t := localName) rfl))) trivial
  have hcondition : (Expr.member ⟨2, 4⟩ (.symbol ⟨2, 4⟩ "a") "c").Reads 1 (us.drop 8)
      (us.drop 11) :=
    .nested (.loosen (.operand (.member (e := .symbol ⟨2, 4⟩ "a") (u := member)
      (.primary rfl) rfl rfl)) (by decide))
  have hpass : (Part.stmt (.pass ⟨3, 3⟩)).Reads (.exact .strict) 0 (us.drop 14) (us.drop 15) :=
    .simple (.pass (t := passing) rfl) trivial
  have hblock : (Part.block ⟨⟨3, 1⟩, [.pass ⟨3, 3⟩]⟩).Reads (.exact .strict) 1 (us.drop 13) [] :=
    .indented (t := .layout .indent ⟨3, 1⟩) rfl
      (.cons (Breaks.refl _) hpass (Breaks.cons rfl (.refl _)) .nil) rfl
  have hbody : (Part.stmts p.body).Reads (.exact .strict) 1 us [] :=
    .cons (Breaks.refl _) himport (Breaks.cons rfl (.refl _)) (.cons (Breaks.refl _)
      (.conditional (t := choosing) rfl
        (.branch hcondition (.body rfl (Breaks.cons rfl (.refl _)) hblock)) .noElse)
      (Breaks.refl _) .nil)
  have hparse : parse .strict (us ++ [.layout .eof ⟨4, 1⟩]) = .ok p :=
    parse_eq_ok_of_reads ⟨rfl, us, .refl us, hbody⟩ (by decide)
  have hrun : run .strict source = .ok p := by rw [run_eq_parse hscan, hparse]
  obtain ⟨-, -, hsound, -⟩ := run_nodes_sound hrun
  exact ⟨hrun, hsound⟩

end Offside
