import Mathlib.Data.List.Count
import Offside.Proofs.Grammar.Writable
import Offside.Proofs.Parse.CompleteProgram
import Offside.Tree.Node

/-!
# How deep parsed trees are

The height of a tree is that of the longest way down from its root. The levels that parsing opens
bound how often such a way can go into an operand on the right, an argument, an index, an element
or a block. They do not bound how often it goes to the left: chains of binary operators and of
suffixes are read in a loop, and each round makes a node above the one before it. So the height of
parsed trees is bounded up to the links of such chains, and not bounded otherwise.
-/

namespace Offside

/-- Whether this is the part at the left end of a node, which was read before it was known that
the node would be made. -/
def Role.isLink : Role → Bool
  | .left | .callee | .object => true
  | _ => false

namespace Node

/-- A way down from a node, with the parts that the nodes below it play. -/
inductive Path : Node → List Role → Node → Prop
  | here (n : Node) : Path n [] n
  | down {n m k : Node} {role : Role} {roles : List Role} (hchild : (role, m) ∈ n.children)
      (hpath : Path m roles k) : Path n (role :: roles) k

/-- Every way down has at most `b` nodes, the first one included. -/
def HeightAtMost (n : Node) (b : Nat) : Prop :=
  ∀ ⦃roles k⦄, n.Path roles k → roles.length < b

/-- The same where the links of chains are not counted. -/
def NestsAtMost (n : Node) (b : Nat) : Prop :=
  ∀ ⦃roles k⦄, n.Path roles k → roles.countP (!·.isLink) < b

namespace NestsAtMost

variable {n : Node} {b c : Nat}

theorem mono (h : n.NestsAtMost b) (hbc : b ≤ c) : n.NestsAtMost c :=
  fun _ _ hpath ↦ (h hpath).trans_le hbc

/-- A node nests one deeper than its children, and no deeper than its link. -/
theorem of_children
    (h : ∀ c ∈ n.children, c.2.NestsAtMost (if c.1.isLink then b + 1 else b)) :
    n.NestsAtMost (b + 1) := by
  intro roles k hpath
  cases hpath with
  | here _ => exact Nat.succ_pos b
  | @down _ m _ role roles hchild hpath =>
      have hbelow := h (role, m) hchild hpath
      cases hlink : role.isLink with
      | true => simpa [hlink] using hbelow
      | false => simpa [hlink] using hbelow

theorem of_all_children (h : ∀ c ∈ n.children, c.2.NestsAtMost b) : n.NestsAtMost (b + 1) := by
  refine of_children fun c hc ↦ (h c hc).mono ?_
  split
  · exact Nat.le_succ b
  · exact Nat.le_refl b

theorem of_leaf (h : n.children = []) : n.NestsAtMost (b + 1) :=
  of_all_children fun c hc ↦ by simp [h] at hc

end NestsAtMost
end Node

theorem Expr.children_of_ofToken {t : Token} {e : Expr} (h : ofToken t = .ok e) :
    e.children = [] := by
  unfold ofToken at h
  repeat' split at h
  all_goals cases h
  all_goals rfl

namespace Phrase

/-- The expressions of a phrase that `n` levels were enough for. -/
def NestsAtMost : Phrase → Nat → Prop
  | tier _ e, n | suffixed e, n => (Node.expr e).NestsAtMost (n + 1)
  | nested _ e, n => (Node.expr e).NestsAtMost n
  | list es, n | items es, n => ∀ e ∈ es, (Node.expr e).NestsAtMost n

/-- Every level counts at most one node that is no link. -/
theorem Reads.nestsAtMost {ph : Phrase} {n : Nat} {ts us : List Token} (h : ph.Reads n ts us) :
    ph.NestsAtMost n := by
  induction h with
  | nested _ ih | looser _ ih | operand _ ih | some _ ih => exact ih
  | primary htoken => exact .of_leaf (Expr.children_of_ofToken htoken)
  | group _ _ _ ih => exact ih.mono (Nat.le_succ _)
  | none => exact nofun
  | last _ ih => exact List.forall_mem_singleton.mpr ih
  | more _ _ _ ihl ihr =>
      exact List.forall_mem_cons.mpr ⟨ihl.mono (Nat.le_max_left ..),
        fun e he ↦ (ihr e he).mono (Nat.le_max_right ..)⟩
  | @binary _ _ _ _ n m _ _ _ _ _ _ ihl ihr =>
      have hleft := ihl.mono (Nat.succ_le_succ (Nat.le_max_left n m))
      have hright := ihr.mono (Nat.le_max_right n m)
      exact .of_children
        (List.forall_mem_cons.mpr ⟨hleft, List.forall_mem_singleton.mpr hright⟩)
  | unary _ _ ih => exact .of_children (List.forall_mem_singleton.mpr ih)
  | array _ _ _ ih => exact .of_children (List.forall_mem_map.mpr ih)
  | @call _ _ _ _ n m _ _ _ _ _ _ _ ihl ihr =>
      have hcallee := ihl.mono (Nat.succ_le_succ (Nat.le_max_left n m))
      exact .of_children (List.forall_mem_cons.mpr ⟨hcallee, List.forall_mem_map.mpr
        fun e he ↦ (ihr e he).mono (Nat.le_max_right n m)⟩)
  | @subscript _ _ _ _ n m _ _ _ _ _ _ _ ihl ihr =>
      have hobject := ihl.mono (Nat.succ_le_succ (Nat.le_max_left n m))
      have hindex := ihr.mono (Nat.le_max_right n m)
      exact .of_children
        (List.forall_mem_cons.mpr ⟨hobject, List.forall_mem_singleton.mpr hindex⟩)
  | member _ _ _ ih => exact .of_children (List.forall_mem_singleton.mpr ih)

end Phrase

section

variable {b n m : Nat} {ts us vs : List Token}

theorem nestsAtMost_typeChild (role : Role) (type : Option TypeRef) :
    ∀ c ∈ typeChild role type, c.2.NestsAtMost (b + 1) :=
  List.forall_mem_map.mpr fun _ _ ↦ .of_leaf rfl

theorem nestsAtMost_exprChild {k : Kind} {value : Option Expr} (role : Role)
    (h : Optionally k Expr.Reads value n ts us) :
    ∀ c ∈ exprChild role value, c.2.NestsAtMost n := by
  cases h with
  | none => exact fun c hc ↦ absurd hc List.not_mem_nil
  | some _ hpart => exact List.forall_mem_singleton.mpr hpart.nestsAtMost

theorem Parameter.Reads.nestsAtMost {p : Parameter} (h : Parameter.Reads p n ts us) :
    (Node.parameter p).NestsAtMost (n + 2) := by
  cases h with
  | @mk t type default n m _ _ _ _ _ hdefault =>
      refine .of_all_children (List.forall_mem_append.mpr ⟨nestsAtMost_typeChild _ _, ?_⟩)
      intro c hc
      exact (nestsAtMost_exprChild .default hdefault c hc).mono (by omega)

theorem Listed.all {α : Type} {S : Reading α} {P : α → Nat → Prop} {as : List α}
    (h : Listed S as n ts us) (hS : ∀ a n ts us, S a n ts us → P a n)
    (hP : ∀ a n m, P a n → n ≤ m → P a m) : ∀ a ∈ as, P a n := by
  cases h with
  | none => exact nofun
  | some hparts =>
      induction hparts with
      | last hpart => exact List.forall_mem_singleton.mpr (hS _ _ _ _ hpart)
      | more hpart _ _ ih =>
          exact List.forall_mem_cons.mpr ⟨hP _ _ _ (hS _ _ _ _ hpart) (Nat.le_max_left ..),
            fun a ha ↦ hP _ _ _ (ih a ha) (Nat.le_max_right ..)⟩

theorem Stmt.Simple.nestsAtMost {s : Stmt} (h : s.Simple n ts us) :
    (Node.stmt s).NestsAtMost (n + 2) := by
  cases h with
  | expression h =>
      exact .of_all_children (List.forall_mem_singleton.mpr (h.nestsAtMost.mono (Nat.le_succ n)))
  | @assignment _ _ _ _ _ n m _ _ _ htarget _ hvalue =>
      refine .of_all_children (List.forall_mem_cons.mpr
        ⟨htarget.nestsAtMost.mono (by omega), List.forall_mem_singleton.mpr ?_⟩)
      exact hvalue.nestsAtMost.mono (by omega)
  | @binding _ _ _ _ n m _ _ _ _ _ _ hvalue =>
      refine .of_all_children (List.forall_mem_append.mpr ⟨nestsAtMost_typeChild _ _, ?_⟩)
      intro c hc
      exact (nestsAtMost_exprChild .value hvalue c hc).mono (by omega)
  | returningValue _ h =>
      exact .of_all_children (List.forall_mem_singleton.mpr (h.nestsAtMost.mono (Nat.le_succ n)))
  | returning _ | breaking _ | continuing _ | pass _ | importing _ _ _ | fromImport _ _ _ _ _ =>
      exact .of_leaf rfl

end

namespace Part

/-- The nodes of a part that `n` levels were enough for. A block is one level and two nodes, its
own and that of the statement in it. -/
def NestsAtMost : Part → Nat → Prop
  | stmt s, n => (Node.stmt s).NestsAtMost (2 * n + 2)
  | stmts ss, n => ∀ s ∈ ss, (Node.stmt s).NestsAtMost (2 * n + 2)
  | block b, n | body b, n => 0 < n ∧ (Node.block b).NestsAtMost (2 * n + 1)
  | branches bs, n => ∀ b ∈ bs, ∀ c ∈ b.children, c.2.NestsAtMost (2 * n + 1)
  | otherwise o, n => ∀ b ∈ o, (Node.block b).NestsAtMost (2 * n + 1)

theorem nestsAtMost_block {p : Position} {ss : List Stmt} {n : Nat}
    (h : (stmts ss).NestsAtMost n) : (block ⟨p, ss⟩).NestsAtMost (n + 1) :=
  ⟨Nat.succ_pos n, .of_all_children (List.forall_mem_map.mpr h)⟩

theorem nestsAtMost_headed {e : Expr} {b : Block} {n m : Nat} {ts us : List Token}
    (role role' : Role) (he : e.Reads n ts us) (hb : (body b).NestsAtMost m) :
    ∀ c ∈ [(role, Node.expr e), (role', Node.block b)], c.2.NestsAtMost (2 * max n m + 1) :=
  List.forall_mem_cons.mpr ⟨he.nestsAtMost.mono (by omega),
    List.forall_mem_singleton.mpr (hb.2.mono (by omega))⟩

theorem Reads.nestsAtMost {L : Layout} {part : Part} {n : Nat} {ts us : List Token}
    (h : part.Reads L n ts us) : part.NestsAtMost n := by
  induction h with
  | simple h _ => exact h.nestsAtMost.mono (by omega)
  | @function _ _ _ _ parameters returns b n m k _ _ _ _ _ _ _ hparameters _ _ _ ih =>
      have hall := hparameters.all (P := fun p n ↦ (Node.parameter p).NestsAtMost (n + 2))
        (fun _ _ _ _ ↦ Parameter.Reads.nestsAtMost)
        (fun _ _ _ h hle ↦ h.mono (Nat.add_le_add_right hle 2))
      have hpos := ih.1
      refine .of_all_children (List.forall_mem_append.mpr ⟨List.forall_mem_append.mpr ⟨?_, ?_⟩, ?_⟩)
      · exact List.forall_mem_map.mpr fun p hp ↦ (hall p hp).mono (by omega)
      · exact nestsAtMost_typeChild _ _
      · exact List.forall_mem_singleton.mpr (ih.2.mono (by omega))
  | @conditional _ bs o n m _ _ _ _ _ _ ihl ihr =>
      refine .of_all_children (List.forall_mem_append.mpr ⟨?_, ?_⟩)
      · intro c hc
        obtain ⟨b, hb, hc⟩ := List.mem_flatMap.mp hc
        exact (ihl b hb c hc).mono (by omega)
      · exact List.forall_mem_map.mpr fun b hb ↦ (ihr b (Option.mem_toList.mp hb)).mono (by omega)
  | whileLoop _ hcondition _ ih => exact .of_all_children (nestsAtMost_headed _ _ hcondition ih)
  | forLoop _ _ _ hiterable _ ih => exact .of_all_children (nestsAtMost_headed _ _ hiterable ih)
  | classDecl _ _ _ ih => exact .of_all_children (List.forall_mem_singleton.mpr ih.2)
  | branch hcondition _ ih =>
      exact List.forall_mem_singleton.mpr (nestsAtMost_headed _ _ hcondition ih)
  | @elif _ _ _ _ n m k _ _ _ _ hcondition _ _ _ ihl ihr =>
      refine List.forall_mem_cons.mpr ⟨fun c hc ↦ ?_, fun b hb c hc ↦ ?_⟩
      · exact (nestsAtMost_headed _ _ hcondition ihl c hc).mono (by omega)
      · exact (ihr b hb c hc).mono (by omega)
  | noElse => exact nofun
  | «else» _ _ ih =>
      rintro b ⟨⟩
      exact ih.2
  | body _ _ _ ih => exact ih
  | braced _ _ _ _ _ ih | indented _ _ _ ih | unclosed _ _ _ _ ih => exact nestsAtMost_block ih
  | nil => exact nofun
  | @cons _ _ n m _ _ _ _ _ _ _ _ _ ihl ihr =>
      exact List.forall_mem_cons.mpr ⟨ihl.mono (by omega), fun s hs ↦ (ihr s hs).mono (by omega)⟩

end Part

/-- The levels that can be open at once bound how deep a parsed program nests, whatever the length
of its chains. -/
theorem parse_nestsAtMost {mode : Mode} {ts : List Token} {p : Program}
    (h : parse mode ts = .ok p) : (Node.program p).NestsAtMost (2 * nestingLimit + 3) := by
  obtain ⟨n, hn, -, us, -, hread⟩ := Program.Reads.of_parse_eq_ok h
  refine .of_all_children (List.forall_mem_map.mpr fun s hs ↦ ?_)
  exact (hread.nestsAtMost s hs).mono (by omega)

/-- A member of a member. -/
theorem parse_nestsAtMost_member :
    let name : Token := ⟨.identifier, "x", none, .start⟩
    let dot : Token := ⟨.mark .dot, ".", none, .start⟩
    let ts := [name, dot, name, dot, name]
    let p : Program := ⟨[.expression .start
      (.member .start (.member .start (.symbol .start "x") "x") "x")], .start⟩
    parse .strict ts = .ok p ∧ (Node.program p).NestsAtMost (2 * nestingLimit + 3) := by
  intro name dot ts p
  have h : parse .strict ts = .ok p := rfl
  exact ⟨h, parse_nestsAtMost h⟩

/-! Chains of any length. -/

/-- One more link: a sum with what was there on its left, or a call or a member of it. -/
def Expr.linked (role : Role) (e : Expr) : Expr :=
  match role with
  | .left => .binary e.position .add e (.null .start)
  | .callee => .call e.position e []
  | _ => .member e.position e "x"

def linkTokens : Role → List Token
  | .left => [.plain (.mark .plus), .plain (.keyword .noneKw)]
  | .callee => [.plain (.mark .openParen), .plain (.mark .closeParen)]
  | _ => [.plain (.mark .dot), .ofName "x"]

def Expr.chain (role : Role) : Nat → Expr
  | 0 => .null .start
  | n + 1 => (chain role n).linked role

def chainTokens (role : Role) : Nat → List Token
  | 0 => [.plain (.keyword .noneKw)]
  | n + 1 => chainTokens role n ++ linkTokens role

theorem content_chainTokens (role : Role) (n : Nat) :
    content (chainTokens role n) = chainTokens role n := by
  have hlink : ∀ t ∈ linkTokens role, decide (t.kind ≠ .eof) = true := by
    cases role <;> decide
  refine List.takeWhile_eq_self_iff.mpr fun t ht ↦ ?_
  induction n with
  | zero =>
      obtain rfl := List.mem_singleton.mp ht
      rfl
  | succ n ih =>
      rcases List.mem_append.mp ht with ht | ht
      · exact ih ht
      · exact hlink t ht

/-- What can be the left end of a link. -/
def Phrase.linkable : Role → Expr → Phrase
  | .left => tier .additive
  | _ => suffixed

section

variable {role : Role} (hrole : role.isLink = true)

include hrole

/-- However long a chain is, one level is enough for what stands to the right of its links. -/
theorem Expr.chain_reads (n : Nat) (us : List Token) :
    ∃ k ≤ 1, (Phrase.linkable role (chain role n)).Reads k (chainTokens role n ++ us) us := by
  induction n generalizing us with
  | zero =>
      refine ⟨0, Nat.zero_le 1, ?_⟩
      have hnull : (Phrase.suffixed (.null .start)).Reads 0
          (Token.plain (.keyword .noneKw) :: us) us := .primary rfl
      cases role with
      | left => exact (Phrase.Reads.operand hnull).loosen (by decide)
      | callee | object => exact hnull
      | _ => cases hrole
  | succ n ih =>
      obtain ⟨k, hk, hread⟩ := ih (linkTokens role ++ us)
      rw [chainTokens, List.append_assoc]
      cases role with
      | left =>
          have hright : (Phrase.nested .multiplicative (.null .start)).Reads 1
              (Token.plain (.keyword .noneKw) :: us) us :=
            .nested ((Phrase.Reads.operand (.primary rfl)).loosen (by decide))
          exact ⟨max k 1, by omega, @Phrase.Reads.binary .add _ _ _ _ _ _ _ _ hread rfl hright⟩
      | callee => exact ⟨max k 0, by omega, .call hread rfl .none rfl⟩
      | object => exact ⟨k, hk, .member hread rfl rfl⟩
      | _ => cases hrole

theorem Expr.chain_path (n : Nat) :
    (Node.expr (chain role n)).Path (List.replicate n role) (.expr (.null .start)) := by
  induction n with
  | zero => exact .here _
  | succ n ih =>
      refine .down (m := .expr (chain role n)) ?_ ih
      cases role with
      | left | callee | object => exact List.mem_cons_self ..
      | _ => cases hrole

/-- A chain of any length is parsed, and the way down to its first link goes through all. -/
theorem parse_chain (mode : Mode) (n : Nat) : ∃ ts p, parse mode ts = .ok p ∧
    (Node.program p).Path (.body :: .value :: List.replicate n role) (.expr (.null .start)) := by
  obtain ⟨k, hk, hread⟩ := Expr.chain_reads hrole n []
  rw [List.append_nil] at hread
  have hexpr : (Expr.chain role n).Reads (k + 1) (chainTokens role n) [] := by
    apply Phrase.Reads.nested
    cases role with
    | left => exact hread.loosen (by decide)
    | callee | object => exact (Phrase.Reads.operand hread).loosen (by decide)
    | _ => cases hrole
  obtain ⟨t, ts, hts, -⟩ := hexpr.exists_cons nofun
  have hstmt : (Stmt.expression t.position (Expr.chain role n)).Simple (k + 1) (t :: ts) [] :=
    .expression (hts ▸ hexpr)
  have hends : (Layout.exact mode).ends (.expression t.position (Expr.chain role n)) [] :=
    ⟨by decide, rfl⟩
  refine ⟨chainTokens role n, ⟨[.expression t.position (Expr.chain role n)], .start⟩,
    parse_eq_ok_of_reads (n := max (k + 1) 0) ?_ ?_, ?_⟩
  · rw [content_chainTokens, hts]
    exact ⟨rfl, t :: ts, .refl _, .cons (.refl _) (.simple hstmt hends) (.refl _) .nil⟩
  · rw [nestingLimit]
    omega
  · exact .down (List.mem_cons_self ..) (.down (List.mem_cons_self ..) (Expr.chain_path hrole n))

end

/-- Nothing bounds the height of parsed programs. -/
theorem parse_height_unbounded :
    ¬ ∃ b, ∀ mode ts p, parse mode ts = .ok p → (Node.program p).HeightAtMost b := by
  rintro ⟨b, hb⟩
  obtain ⟨ts, p, hparse, hpath⟩ := parse_chain (show Role.isLink .left from rfl) .strict b
  have hlt := hb .strict ts p hparse hpath
  simp only [List.length_cons, List.length_replicate] at hlt
  omega

end Offside
