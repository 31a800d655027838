import Mathlib.Data.List.TakeWhile
import Offside.Proofs.Grammar.Part
import Offside.Proofs.Tree.Walk

/-!
# Trees along their tokens

Every node but a program is marked by one of the tokens from which it is read: the first one, or
for an expression the first one behind its parentheses. A walk over a tree meets the tokens of its
nodes in the order in which they stand.
-/

namespace Offside

/-- What is left without the opening parentheses in front. -/
def skipParens (ts : List Token) : List Token :=
  ts.dropWhile (·.kind = .mark .openParen)

theorem skipParens_suffix (ts : List Token) : skipParens ts <:+ ts :=
  List.dropWhile_suffix _

theorem skipParens_cons_of_eq {t : Token} (h : t.kind = .mark .openParen) (ts : List Token) :
    skipParens (t :: ts) = skipParens ts := by
  simp [skipParens, h]

theorem skipParens_cons_of_ne {t : Token} (h : t.kind ≠ .mark .openParen) (ts : List Token) :
    skipParens (t :: ts) = t :: ts := by
  simp [skipParens, h]

/-- The keyword that a statement starts with, if it does not start with an expression. -/
def Stmt.keyword? : Stmt → Option Keyword
  | .expression _ _ | .assignment _ _ _ _ => none
  | .varDecl _ _ isConstant _ _ => some (if isConstant then .constKw else .letKw)
  | .fnDecl _ _ _ _ _ => some .defKw
  | .returning _ _ => some .returnKw
  | .conditional _ _ _ => some .ifKw
  | .whileLoop _ _ _ => some .whileKw
  | .forLoop _ _ _ _ => some .forKw
  | .breaking _ => some .breakKw
  | .continuing _ => some .continueKw
  | .pass _ => some .passKw
  | .classDecl _ _ _ => some .classKw
  | .importing _ _ items _ => some (if items.isSome then .fromKw else .importKw)

namespace Node

/-- How a node is read. -/
def Reads (L : Layout) : Reading Node
  | program p, n, ts, us => p.Reads L n ts ∧ us = []
  | stmt s, n, ts, us => (Part.stmt s).Reads L n ts us
  | block b, n, ts, us => (Part.block b).Reads L n ts us
  | parameter p, n, ts, us => Parameter.Reads p n ts us
  | type t, n, ts, us => TypeRef.Reads t n ts us
  | expr e, n, ts, us => e.Reads n ts us

/-- The tokens from the one that marks the node on. -/
def front : Node → List Token → List Token
  | expr _, ts => skipParens ts
  | _, ts => ts

/-- The token can mark the node. A program is marked by none. -/
def OpensWith : Node → Token → Prop
  | program _, _ => False
  | stmt s, t => match s.keyword? with
    | some k => t.kind = .keyword k
    | none => t.kind.StartsExpr
  | block _, t => t.kind = .mark .openCurly ∨ t.kind = .indent
  | parameter p, t => t.kind = .identifier ∧ t.lexeme = p.name
  | type r, t => t.kind = .identifier ∧ t.lexeme = r.name
  | expr _, t => t.kind.StartsExpr ∧ t.kind ≠ .mark .openParen

/-- Somewhere in the tokens `all` the node is read, and there `t` marks it. -/
structure MarkedBy (L : Layout) (all : List Token) (n : Node) (t : Token) : Prop where
  reads : ∃ k whole us rest,
    whole <:+ all ∧ n.Reads L k whole us ∧ n.front whole = t :: rest
  opens : n.OpensWith t

end Node

/-- From the tokens `ts` to the tokens `us` the nodes are met in this order, each at the token
that marks it and whose position it has. -/
inductive Meets (L : Layout) (all : List Token) : List Node → List Token → List Token → Prop
  | done (ts : List Token) : Meets L all [] ts ts
  | pass {ns : List Node} {ts us : List Token} (t : Token) (h : Meets L all ns ts us) :
      Meets L all ns (t :: ts) us
  | meet {n : Node} {t : Token} {ns : List Node} {ts us : List Token}
      (hmarked : n.MarkedBy L all t) (hposition : n.position = t.position)
      (h : Meets L all ns (t :: ts) us) : Meets L all (n :: ns) (t :: ts) us

namespace Meets

variable {L : Layout} {all more : List Token} {ns ms : List Node} {ts us vs : List Token}

theorem suffix (h : Meets L all ns ts us) : us <:+ ts := by
  induction h with
  | done _ => exact List.suffix_rfl
  | pass _ _ ih => exact ih.trans (List.suffix_cons _ _)
  | meet _ _ _ ih => exact ih

theorem mono (h : Meets L all ns ts us) (hall : all <:+ more) : Meets L more ns ts us := by
  induction h with
  | done ts => exact .done ts
  | pass t _ ih => exact .pass t ih
  | meet hmarked hposition _ ih =>
      obtain ⟨k, whole, us, rest, hwhole, hread⟩ := hmarked.reads
      exact .meet ⟨⟨k, whole, us, rest, hwhole.trans hall, hread⟩, hmarked.opens⟩ hposition ih

theorem append (h : Meets L all ns ts us) (h' : Meets L all ms us vs) :
    Meets L all (ns ++ ms) ts vs := by
  induction h with
  | done _ => exact h'
  | pass t _ ih => exact .pass t (ih h')
  | meet hmarked hposition _ ih => exact .meet hmarked hposition (ih h')

/-- Tokens without nodes. -/
theorem skip (h : us <:+ ts) : Meets L all [] ts us := by
  obtain ⟨xs, rfl⟩ := h
  induction xs with
  | nil => exact .done _
  | cons x xs ih => exact .pass x ih

/-- Tokens behind the last node. -/
theorem trim (h : Meets L all ns ts us) (hsuffix : vs <:+ us) : Meets L all ns ts vs := by
  simpa using h.append (skip hsuffix)

/-- Tokens in front of the first node. -/
theorem lead (h : Meets L all ns us vs) (hsuffix : us <:+ ts) : Meets L all ns ts vs :=
  (skip hsuffix).append h

/-- Readings one after the other. -/
theorem follow (h : Meets L ts ns ts us) (h' : Meets L us ms us vs) :
    Meets L ts (ns ++ ms) ts vs :=
  h.append (h'.mono h.suffix)

/-- A reading behind other tokens. -/
theorem behind (h : Meets L us ns us vs) (hsuffix : us <:+ ts) : Meets L ts ns ts vs :=
  (h.mono hsuffix).lead hsuffix

/-- A node is met before what is below it. -/
theorem node {n : Node} {t : Token} {k : Nat} {rest : List Token} (hread : n.Reads L k ts us)
    (hfront : n.front ts = t :: rest) (hopens : n.OpensWith t)
    (hposition : n.position = t.position)
    (hbelow : Meets L ts (Node.walkAll n.children) (t :: rest) us) :
    Meets L ts n.walk (t :: rest) us := by
  rw [n.walk_eq]
  exact .meet ⟨⟨k, ts, us, rest, List.suffix_rfl, hread, hfront⟩, hopens⟩ hposition hbelow

end Meets

namespace Phrase

variable {L : Layout} {ph : Phrase} {e : Expr} {n : Nat} {ts us : List Token}

/-- What is left of the tokens of a phrase where its first node is met. -/
def front : Phrase → List Token → List Token
  | tier _ _, ts | nested _ _, ts | suffixed _, ts => skipParens ts
  | list _, ts | items _, ts => ts

def nodes : Phrase → List Node
  | tier _ e | nested _ e | suffixed e => (Node.expr e).walk
  | list es | items es => es.flatMap fun e ↦ (Node.expr e).walk

/-- The expression of the phrase has the position of its first token behind the parentheses. -/
def Opens : Phrase → List Token → Prop
  | tier _ e, ts | nested _ e, ts | suffixed e, ts => ∃ t rest, skipParens ts = t :: rest ∧
      (Node.expr e).OpensWith t ∧ e.position = t.position
  | list _, _ | items _, _ => True

theorem Reads.tier_reads {p : Precedence} (h : (tier p e).Reads n ts us) :
    e.Reads (n + 1) ts us :=
  .nested (h.loosen (Nat.zero_le _))

theorem front_suffix (ph : Phrase) (ts : List Token) : ph.front ts <:+ ts := by
  cases ph with
  | tier _ _ | nested _ _ | suffixed _ => exact skipParens_suffix ts
  | list _ | items _ => exact List.suffix_rfl

theorem position_of_ofToken {t : Token} (h : Expr.ofToken t = .ok e) :
    e.position = t.position := by
  unfold Expr.ofToken at h
  repeat' split at h
  all_goals cases h
  all_goals rfl

theorem kind_ne_openParen_of_unaryOp {t : Token} {op : UnaryOp} (h : t.kind = op.kind) :
    t.kind ≠ .mark .openParen := by
  rw [h]
  cases op <;> decide

theorem kind_ne_openParen_of_ofToken {t : Token} (h : Expr.ofToken t = .ok e) :
    t.kind ≠ .mark .openParen := by
  intro hparen
  have hatom := Expr.atomForm?_of_ofToken h
  rw [hparen] at hatom
  cases hatom

/-- A phrase that does not start with a parenthesis. -/
theorem opens_cons {t : Token} (hne : t.kind ≠ .mark .openParen) (hstarts : t.kind.StartsExpr)
    (hposition : e.position = t.position) : (suffixed e).Opens (t :: ts) :=
  ⟨t, ts, skipParens_cons_of_ne hne ts, ⟨hstarts, hne⟩, hposition⟩

theorem Reads.opens (h : ph.Reads n ts us) : ph.Opens ts := by
  induction h with
  | nested _ ih | looser _ ih | operand _ ih => exact ih
  | binary _ _ _ ih | call _ _ _ _ ih | subscript _ _ _ _ ih | member _ _ _ ih => exact ih
  | unary hop _ _ =>
      refine opens_cons (kind_ne_openParen_of_unaryOp hop) (.inr ?_) rfl
      rw [hop, Kind.unaryOp?_eq_some_iff.mpr rfl]
      rfl
  | primary h =>
      refine opens_cons (kind_ne_openParen_of_ofToken h) (.inl ?_) (position_of_ofToken h)
      rw [Expr.atomForm?_of_ofToken h]
      rfl
  | array hopen _ _ _ =>
      refine opens_cons (by simp [hopen]) (.inl ?_) rfl
      rw [hopen]
      rfl
  | group hopen _ _ ih =>
      obtain ⟨t, rest, hfront, hopens⟩ := ih
      exact ⟨t, rest, (skipParens_cons_of_eq hopen _).trans hfront, hopens⟩
  | last _ _ | more _ _ _ _ _ | none | some _ _ => trivial

/-- An expression is met at its front, and then all below it. -/
theorem Reads.meets_expr {p : Precedence} (h : (tier p e).Reads n ts us)
    (hbelow : Meets L ts (Node.walkAll e.children) (skipParens ts) us) :
    Meets L ts (Node.expr e).walk (skipParens ts) us := by
  obtain ⟨t, rest, hfront, hopens, hposition⟩ := h.opens
  rw [hfront] at hbelow ⊢
  exact .node (show (Node.expr e).Reads L (n + 1) ts us from h.tier_reads) hfront hopens
    hposition hbelow

theorem Reads.meets_cons {p : Precedence} {t : Token} (h : (tier p e).Reads n (t :: ts) us)
    (hne : t.kind ≠ .mark .openParen) (hbelow : Meets L ts (Node.walkAll e.children) ts us) :
    Meets L (t :: ts) (Node.expr e).walk (skipParens (t :: ts)) us := by
  refine h.meets_expr ?_
  rw [skipParens_cons_of_ne hne]
  exact hbelow.behind (List.suffix_cons t ts)

/-- A phrase in the middle of another. -/
theorem meets_between {t : Token} {ns : List Node} {ws xs vs : List Token}
    (h : Meets L ts ns ws (t :: us)) (hsuffix : t :: us <:+ ts)
    (h' : Meets L us ph.nodes (ph.front us) xs) (hvs : vs <:+ xs) :
    Meets L ts (ns ++ ph.nodes) ws vs := by
  have hphrase := (h'.lead (ph.front_suffix us)).trim hvs
  exact h.append ((hphrase.behind (List.suffix_cons t us)).mono hsuffix)

/-- Reading a phrase meets its nodes. -/
theorem Reads.meets (h : ph.Reads n ts us) : Meets L ts ph.nodes (ph.front ts) us := by
  -- A left operand has to be met from where its operator was met, not from its own parentheses,
  -- so the walk starts at the front of the phrase and not at its first token.
  induction h with
  | nested _ ih | looser _ ih | operand _ ih | some _ ih => exact ih
  | none => exact .done _
  | @last e _ ts us _ ih =>
      rw [nodes, List.flatMap_singleton]
      exact ih.lead (skipParens_suffix ts)
  | @more _ _ _ _ _ ts _ _ hfirst _ _ ihl ihr =>
      exact meets_between (ihl.lead (skipParens_suffix ts)) hfirst.suffix ihr List.suffix_rfl
  | binary hleft hop hright ihl ihr =>
      have hbelow := meets_between ihl hleft.suffix ihr List.suffix_rfl
      exact (Reads.binary hleft hop hright).meets_expr
        (by simpa [Expr.children, nodes, front] using hbelow)
  | @unary _ _ e _ ts us hop h ih =>
      have hbelow : Meets L ts (Node.expr e).walk ts us := ih.lead (skipParens_suffix ts)
      exact (Reads.unary hop h).meets_cons (kind_ne_openParen_of_unaryOp hop)
        (by simpa [Expr.children] using hbelow)
  | primary h =>
      refine (Reads.operand (.primary h)).meets_cons (kind_ne_openParen_of_ofToken h) ?_
      rw [Expr.children_of_ofToken h]
      exact .done _
  | @group t u e n ts us hopen _ hclose ih =>
      have hinner : Meets L ts (Node.expr e).walk (skipParens ts) us :=
        ih.trim (List.suffix_cons u us)
      rw [front, skipParens_cons_of_eq hopen]
      exact hinner.mono (List.suffix_cons t ts)
  | array hopen h hclose ih =>
      refine (Reads.operand (.array hopen h hclose)).meets_cons (by simp [hopen]) ?_
      simpa [Expr.children, nodes, front] using ih.trim (List.suffix_cons _ _)
  | call hcallee hopen h hclose ihl ihr =>
      have hbelow := meets_between ihl hcallee.suffix ihr (List.suffix_cons _ _)
      exact (Reads.operand (.call hcallee hopen h hclose)).meets_expr
        (by simpa [Expr.children, nodes, front] using hbelow)
  | subscript hobject hopen h hclose ihl ihr =>
      have hbelow := meets_between ihl hobject.suffix ihr (List.suffix_cons _ _)
      exact (Reads.operand (.subscript hobject hopen h hclose)).meets_expr
        (by simpa [Expr.children, nodes, front] using hbelow)
  | member hobject hdot hname ih =>
      have hbelow := ih.trim ((List.suffix_cons _ _).trans (List.suffix_cons _ _))
      exact (Reads.operand (.member hobject hdot hname)).meets_expr
        (by simpa [Expr.children, nodes, front] using hbelow)

end Phrase

/-- Reading a value meets exactly its nodes. -/
def Reading.Tours {α : Type} (S : Reading α) (L : Layout) (f : α → List Node) : Prop :=
  ∀ ⦃a n ts us⦄, S a n ts us → Meets L ts (f a) ts us

section

variable {L : Layout} {α : Type} {S : Reading α} {f : α → List Node}

theorem Optionally.tours {k : Kind} (hS : S.Tours L f) :
    (Optionally k S).Tours L fun a ↦ a.toList.flatMap f := by
  intro a n ts us h
  cases h with
  | none => exact .done ts
  | some _ hpart => simpa using (hS hpart).behind (List.suffix_cons _ _)

theorem Separated.tours (hS : S.Tours L f) : (Separated S).Tours L (List.flatMap f) := by
  intro as n ts us h
  induction h with
  | last hpart => simpa using hS hpart
  | more hpart _ _ ih => exact (hS hpart).follow (ih.behind (List.suffix_cons _ _))

theorem Listed.tours (hS : S.Tours L f) : (Listed S).Tours L (List.flatMap f) := by
  intro as n ts us h
  cases h with
  | none => exact .done ts
  | some hparts => exact Separated.tours hS hparts

theorem Expr.Reads.tours : Reading.Tours Expr.Reads L fun e ↦ (Node.expr e).walk :=
  fun _ _ ts _ h ↦ (Phrase.Reads.meets h).lead (skipParens_suffix ts)

theorem TypeRef.Reads.tours : Reading.Tours TypeRef.Reads L fun t ↦ (Node.type t).walk := by
  intro r n ts us h
  cases h with
  | @mk t _ hkind =>
      have hread : (Node.type ⟨t.lexeme, false, t.position⟩).Reads L 0 (t :: us) us := .mk hkind
      exact .node hread rfl ⟨hkind, rfl⟩ rfl (.skip (List.suffix_cons t us))

theorem Parameter.Reads.tours :
    Reading.Tours Parameter.Reads L fun p ↦ (Node.parameter p).walk := by
  intro p n ts us h
  cases h with
  | @mk t type default n m ts vs _ hname htype hdefault =>
      have hread : (Node.parameter ⟨t.lexeme, type, default, t.position⟩).Reads L (max n m)
          (t :: ts) us := .mk hname htype hdefault
      have hbelow := (Optionally.tours TypeRef.Reads.tours htype).follow
        (Optionally.tours (L := L) Expr.Reads.tours hdefault)
      refine .node hread rfl ⟨hname, rfl⟩ rfl (.behind ?_ (List.suffix_cons t ts))
      simpa [Node.children, Parameter.children, typeChild, exprChild] using hbelow

end

section

variable {L : Layout} {s : Stmt} {n : Nat} {ts us : List Token}

theorem Stmt.Simple.exists_first (h : s.Simple n ts us) :
    ∃ t vs, ts = t :: vs ∧ s.position = t.position ∧ (Node.stmt s).OpensWith t := by
  cases h with
  | expression h | assignment h _ _ =>
      obtain ⟨t, vs, hts, hstarts⟩ := h.exists_cons nofun
      obtain ⟨rfl, rfl⟩ := List.cons.inj hts
      exact ⟨_, _, rfl, rfl, hstarts⟩
  | binding hkind _ _ _ =>
      refine ⟨_, _, rfl, rfl, ?_⟩
      rcases hkind with hkind | hkind <;> simp [Node.OpensWith, keyword?, hkind]
  | returning hkind | returningValue hkind _ | breaking hkind | continuing hkind | pass hkind
  | importing hkind _ _ | fromImport hkind _ _ _ _ =>
      exact ⟨_, _, rfl, rfl, hkind⟩

theorem Stmt.Simple.tours_children (h : s.Simple n ts us) :
    Meets L ts (Node.walkAll s.children) ts us := by
  have htail : us <:+ ts := by
    obtain ⟨t, vs, rfl, hsuffix⟩ := h.exists_cons
    exact hsuffix.trans (List.suffix_cons t vs)
  cases h with
  | expression h => simpa [children] using Expr.Reads.tours h
  | assignment htarget _ hvalue =>
      have hbelow := (Expr.Reads.tours htarget).follow
        ((Expr.Reads.tours (L := L) hvalue).behind (List.suffix_cons _ _))
      simpa [children] using hbelow
  | binding _ _ htype hvalue =>
      have hbelow := (Optionally.tours TypeRef.Reads.tours htype).follow
        (Optionally.tours (L := L) Expr.Reads.tours hvalue)
      simpa [children, typeChild, exprChild] using
        hbelow.behind ((List.suffix_cons _ _).trans (List.suffix_cons _ _))
  | returningValue _ h =>
      simpa [children, exprChild] using (Expr.Reads.tours h).behind (List.suffix_cons _ _)
  | returning _ | breaking _ | continuing _ | pass _ | importing _ _ _ | fromImport _ _ _ _ _ =>
      exact .skip htail

end

namespace Part

def nodes : Part → List Node
  | stmt s => (Node.stmt s).walk
  | stmts ss => Node.walkAll (stmtChildren ss)
  | block b | body b => (Node.block b).walk
  | branches bs => Node.walkAll (bs.flatMap Branch.children)
  | otherwise o => Node.walkAll (o.toList.map fun b ↦ (.alternative, .block b))

variable {L : Layout} {part : Part} {s : Stmt} {n : Nat} {t : Token} {ts us : List Token}

/-- A statement is met at its keyword, and then all below it. -/
theorem meets_stmt {k : Keyword} (h : (stmt s).Reads L n (t :: ts) us) (hkind : t.kind = .keyword k)
    (hs : s.keyword? = some k) (hposition : s.position = t.position)
    (hbelow : Meets L ts (Node.walkAll s.children) ts us) :
    Meets L (t :: ts) (Node.stmt s).walk (t :: ts) us := by
  have hopens : (Node.stmt s).OpensWith t := by
    rw [Node.OpensWith, hs]
    exact hkind
  have hread : (Node.stmt s).Reads L n (t :: ts) us := h
  exact .node hread rfl hopens hposition (hbelow.behind (List.suffix_cons t ts))

/-- A block is met at the token that opens it, and then its statements. -/
theorem meets_block {ss : List Stmt} {vs : List Token}
    (h : (block ⟨t.position, ss⟩).Reads L n (t :: ts) us)
    (hopen : t.kind = .mark .openCurly ∨ t.kind = .indent) (hgap : vs <:+ ts)
    (hbelow : Meets L vs (Node.walkAll (stmtChildren ss)) vs us) :
    Meets L (t :: ts) (Node.block ⟨t.position, ss⟩).walk (t :: ts) us := by
  have hread : (Node.block ⟨t.position, ss⟩).Reads L n (t :: ts) us := h
  exact .node hread rfl hopen rfl (hbelow.behind (hgap.trans (List.suffix_cons t ts)))

/-- Reading a part meets its nodes. -/
theorem Reads.meets (hgap : ∀ ts us, L.gap ts us → us <:+ ts) (h : part.Reads L n ts us) :
    Meets L ts part.nodes ts us := by
  induction h with
  | simple h hends =>
      obtain ⟨t, vs, rfl, hposition, hopens⟩ := h.exists_first
      have hread := Reads.simple (L := L) h hends
      exact .node (show (Node.stmt _).Reads L _ _ _ from hread) rfl hopens hposition
        h.tours_children
  | function hkind hname hopen hparameters hclose hreturns hbody ih =>
      refine meets_stmt (.function hkind hname hopen hparameters hclose hreturns hbody) hkind rfl
        rfl ?_
      have hparameters := Listed.tours (L := L) Parameter.Reads.tours hparameters
      have hreturns := Optionally.tours (L := L) TypeRef.Reads.tours hreturns
      have hbelow := hparameters.follow ((hreturns.follow ih).behind (List.suffix_cons _ _))
      simpa [Stmt.children, typeChild, nodes] using
        hbelow.behind ((List.suffix_cons _ _).trans (List.suffix_cons _ _))
  | conditional hkind hbranches hotherwise ihl ihr =>
      refine meets_stmt (.conditional hkind hbranches hotherwise) hkind rfl rfl ?_
      simpa [Stmt.children, nodes] using ihl.follow ihr
  | whileLoop hkind hcondition hbody ih =>
      refine meets_stmt (.whileLoop hkind hcondition hbody) hkind rfl rfl ?_
      simpa [Stmt.children, nodes] using (Expr.Reads.tours hcondition).follow ih
  | forLoop hkind hname hin hiterable hbody ih =>
      refine meets_stmt (.forLoop hkind hname hin hiterable hbody) hkind rfl rfl ?_
      have hbelow := (Expr.Reads.tours hiterable).follow ih
      simpa [Stmt.children, nodes] using
        hbelow.behind ((List.suffix_cons _ _).trans (List.suffix_cons _ _))
  | classDecl hkind hname hbody ih =>
      refine meets_stmt (.classDecl hkind hname hbody) hkind rfl rfl ?_
      simpa [Stmt.children, nodes] using ih.behind (List.suffix_cons _ _)
  | branch hcondition _ ih =>
      simpa [nodes, Branch.children] using (Expr.Reads.tours hcondition).follow ih
  | elif hcondition _ _ _ ihl ihr =>
      have hfirst := (Expr.Reads.tours hcondition).follow ihl
      simpa [nodes, Branch.children] using hfirst.follow (ihr.behind (List.suffix_cons _ _))
  | noElse | nil => exact .done _
  | «else» _ _ ih => simpa [nodes] using ih.behind (List.suffix_cons _ _)
  | body _ hbreaks _ ih => exact ih.behind ((hgap _ _ hbreaks).trans (List.suffix_cons _ _))
  | braced hopen hbefore h hclose hafter ih =>
      exact meets_block (.braced hopen hbefore h hclose hafter) (.inl hopen) (hgap _ _ hbefore)
        (ih.trim ((hgap _ _ hafter).trans (List.suffix_cons _ _)))
  | indented hopen h hclose ih =>
      exact meets_block (.indented hopen h hclose) (.inr hopen) List.suffix_rfl
        (ih.trim (List.suffix_cons _ _))
  | unclosed hmode hopen h hend ih =>
      exact meets_block (.unclosed hmode hopen h hend) (.inr hopen) List.suffix_rfl ih
  | cons hbefore _ hafter _ ihl ihr =>
      have hbelow := ihl.follow (ihr.behind (hgap _ _ hafter))
      simpa [nodes, stmtChildren] using hbelow.behind (hgap _ _ hbefore)

end Part

/-- A program is read from all its tokens, and everything below it is met on the way. -/
theorem Program.Reads.meets {L : Layout} {p : Program} {n : Nat} {ts : List Token}
    (hgap : ∀ ts us, L.gap ts us → us <:+ ts) (h : p.Reads L n ts) :
    Meets L ts (Node.program p).walk.tail ts [] := by
  obtain ⟨-, us, hbefore, hbody⟩ := h
  rw [Node.walk_eq]
  exact (hbody.meets hgap).behind (hgap ts us hbefore)

end Offside
