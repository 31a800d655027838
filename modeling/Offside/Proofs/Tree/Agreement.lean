import Mathlib.Data.List.Forall2
import Offside.Tree.Same
import Offside.Proofs.Number.Quantity
import Offside.Proofs.Tree.Positions

/-!
# Agreement of trees

Trees agree if they are built in the same way from the same names, operators and values. Positions
play no part in this. The relation of doubles is left open: forgetting the positions of a tree
changes no double, and alike trees have doubles that are equal as numbers.
-/

namespace Offside

variable (R : Binary64 → Binary64 → Prop)

inductive Expr.Agrees : Expr → Expr → Prop
  | integer {p q : Position} (n : Int) : Agrees (.integer p n) (.integer q n)
  | float {p q : Position} {x y : Binary64} (h : R x y) : Agrees (.float p x) (.float q y)
  | string {p q : Position} (s : String) : Agrees (.string p s) (.string q s)
  | boolean {p q : Position} (b : Bool) : Agrees (.boolean p b) (.boolean q b)
  | null {p q : Position} : Agrees (.null p) (.null q)
  | symbol {p q : Position} (name : String) : Agrees (.symbol p name) (.symbol q name)
  | binary {p q : Position} (op : BinaryOp) {l l' r r' : Expr} (hleft : Agrees l l')
      (hright : Agrees r r') : Agrees (.binary p op l r) (.binary q op l' r')
  | unary {p q : Position} (op : UnaryOp) {e e' : Expr} (h : Agrees e e') :
      Agrees (.unary p op e) (.unary q op e')
  | call {p q : Position} {e e' : Expr} {es es' : List Expr} (hcallee : Agrees e e')
      (harguments : List.Forall₂ Agrees es es') : Agrees (.call p e es) (.call q e' es')
  | subscript {p q : Position} {e e' i i' : Expr} (hobject : Agrees e e') (hindex : Agrees i i') :
      Agrees (.subscript p e i) (.subscript q e' i')
  | member {p q : Position} {e e' : Expr} (hobject : Agrees e e') (name : String) :
      Agrees (.member p e name) (.member q e' name)
  | array {p q : Position} {es es' : List Expr} (h : List.Forall₂ Agrees es es') :
      Agrees (.array p es) (.array q es')

structure TypeRef.Agrees (t u : TypeRef) : Prop where
  name : t.name = u.name
  optional : t.optional = u.optional

structure Parameter.Agrees (p q : Parameter) : Prop where
  name : p.name = q.name
  type : Option.Rel TypeRef.Agrees p.type q.type
  default : Option.Rel (Expr.Agrees R) p.default q.default

mutual

inductive Stmt.Agrees : Stmt → Stmt → Prop
  | expression {p q : Position} {e e' : Expr} (h : e.Agrees R e') :
      Stmt.Agrees (.expression p e) (.expression q e')
  | varDecl {p q : Position} (name : String) (isConstant : Bool) {t t' : Option TypeRef}
      {e e' : Option Expr} (htype : Option.Rel TypeRef.Agrees t t')
      (hvalue : Option.Rel (Expr.Agrees R) e e') :
      Stmt.Agrees (.varDecl p name isConstant t e) (.varDecl q name isConstant t' e')
  | fnDecl {p q : Position} (name : String) {ps ps' : List Parameter} {t t' : Option TypeRef}
      {b b' : Block} (hparameters : List.Forall₂ (Parameter.Agrees R) ps ps')
      (hreturns : Option.Rel TypeRef.Agrees t t') (hbody : Block.Agrees b b') :
      Stmt.Agrees (.fnDecl p name ps t b) (.fnDecl q name ps' t' b')
  | returning {p q : Position} {e e' : Option Expr} (h : Option.Rel (Expr.Agrees R) e e') :
      Stmt.Agrees (.returning p e) (.returning q e')
  | conditional {p q : Position} {bs bs' : List Branch} {o o' : Option Block}
      (hbranches : List.Forall₂ Branch.Agrees bs bs') (hotherwise : Option.Rel Block.Agrees o o') :
      Stmt.Agrees (.conditional p bs o) (.conditional q bs' o')
  | whileLoop {p q : Position} {e e' : Expr} {b b' : Block} (hcondition : e.Agrees R e')
      (hbody : Block.Agrees b b') : Stmt.Agrees (.whileLoop p e b) (.whileLoop q e' b')
  | forLoop {p q : Position} (name : String) {e e' : Expr} {b b' : Block}
      (hiterable : e.Agrees R e') (hbody : Block.Agrees b b') :
      Stmt.Agrees (.forLoop p name e b) (.forLoop q name e' b')
  | breaking {p q : Position} : Stmt.Agrees (.breaking p) (.breaking q)
  | continuing {p q : Position} : Stmt.Agrees (.continuing p) (.continuing q)
  | pass {p q : Position} : Stmt.Agrees (.pass p) (.pass q)
  | assignment {p q : Position} {t t' : Expr} (op : AssignOp) {e e' : Expr}
      (htarget : t.Agrees R t') (hvalue : e.Agrees R e') :
      Stmt.Agrees (.assignment p t op e) (.assignment q t' op e')
  | classDecl {p q : Position} (name : String) {b b' : Block} (hbody : Block.Agrees b b') :
      Stmt.Agrees (.classDecl p name b) (.classDecl q name b')
  | importing {p q : Position} (module : String) (items : Option (List String))
      (localName : Option String) :
      Stmt.Agrees (.importing p module items localName) (.importing q module items localName)

inductive Block.Agrees : Block → Block → Prop
  | mk {p q : Position} {ss ss' : List Stmt} (h : List.Forall₂ Stmt.Agrees ss ss') :
      Block.Agrees ⟨p, ss⟩ ⟨q, ss'⟩

inductive Branch.Agrees : Branch → Branch → Prop
  | mk {e e' : Expr} {b b' : Block} (hcondition : e.Agrees R e') (hbody : Block.Agrees b b') :
      Branch.Agrees ⟨e, b⟩ ⟨e', b'⟩

end

def Program.Agrees (p q : Program) : Prop :=
  List.Forall₂ (Stmt.Agrees R) p.body q.body

section

variable {α β γ : Type} {same : β → β → Bool} {S : α → α → Prop} {f : α → β}

theorem sameOption_iff_rel (h : ∀ a b, same (f a) (f b) = true ↔ S a b) (o o' : Option α) :
    sameOption same (o.map f) (o'.map f) = true ↔ Option.Rel S o o' := by
  cases o with
  | none =>
      cases o' with
      | none => exact iff_of_true rfl .none
      | some b => exact iff_of_false nofun nofun
  | some a =>
      cases o' with
      | none => exact iff_of_false nofun nofun
      | some b => exact (h a b).trans ⟨.some, by rintro ⟨⟩; assumption⟩

theorem sameList_iff_forall₂ (h : ∀ a b, same (f a) (f b) = true ↔ S a b) (as bs : List α) :
    sameList same (as.map f) (bs.map f) = true ↔ List.Forall₂ S as bs := by
  induction as generalizing bs with
  | nil =>
      cases bs with
      | nil => exact iff_of_true rfl .nil
      | cons b bs => exact iff_of_false nofun nofun
  | cons a as ih =>
      cases bs with
      | nil => exact iff_of_false nofun nofun
      | cons b bs =>
          rw [List.map_cons, List.map_cons, sameList, Bool.and_eq_true, h, ih, List.forall₂_cons]

end

/-! Trees agree if they are the same with all their positions at one place. -/

section

variable (c : Position)

mutual

theorem Expr.same_iff_agrees : (e e' : Expr) →
    ((e.mapPositions fun _ ↦ c).same (e'.mapPositions fun _ ↦ c) = true ↔
      e.Agrees Binary64.Equals e')
  | .integer _ m, e' => by
      cases e' with
      | integer _ n =>
          simp only [mapPositions, same, decide_true, Bool.true_and, decide_eq_true_iff]
          exact ⟨by rintro rfl; exact .integer m, by rintro ⟨⟩; rfl⟩
      | _ => exact iff_of_false nofun nofun
  | .float _ x, e' => by
      cases e' with
      | float _ y =>
          simp only [mapPositions, same, decide_true, Bool.true_and, Binary64.same_iff_equals]
          exact ⟨.float, by rintro ⟨⟩; assumption⟩
      | _ => exact iff_of_false nofun nofun
  | .string _ s, e' => by
      cases e' with
      | string _ t =>
          simp only [mapPositions, same, decide_true, Bool.true_and, decide_eq_true_iff]
          exact ⟨by rintro rfl; exact .string s, by rintro ⟨⟩; rfl⟩
      | _ => exact iff_of_false nofun nofun
  | .boolean _ b, e' => by
      cases e' with
      | boolean _ b' =>
          simp only [mapPositions, same, decide_true, Bool.true_and, decide_eq_true_iff]
          exact ⟨by rintro rfl; exact .boolean b, by rintro ⟨⟩; rfl⟩
      | _ => exact iff_of_false nofun nofun
  | .null _, e' => by
      cases e' with
      | null _ => exact iff_of_true (decide_eq_true rfl) .null
      | _ => exact iff_of_false nofun nofun
  | .symbol _ name, e' => by
      cases e' with
      | symbol _ name' =>
          simp only [mapPositions, same, decide_true, Bool.true_and, decide_eq_true_iff]
          exact ⟨by rintro rfl; exact .symbol name, by rintro ⟨⟩; rfl⟩
      | _ => exact iff_of_false nofun nofun
  | .binary _ op l r, e' => by
      cases e' with
      | binary _ op' l' r' =>
          simp only [mapPositions, same, decide_true, Bool.true_and, Bool.and_eq_true,
            decide_eq_true_iff, same_iff_agrees l l', same_iff_agrees r r']
          exact ⟨by rintro ⟨⟨rfl, hl⟩, hr⟩; exact .binary op hl hr,
            by rintro ⟨⟩; exact ⟨⟨rfl, ‹_›⟩, ‹_›⟩⟩
      | _ => exact iff_of_false nofun nofun
  | .unary _ op e, e' => by
      cases e' with
      | unary _ op' e' =>
          simp only [mapPositions, same, decide_true, Bool.true_and, Bool.and_eq_true,
            decide_eq_true_iff, same_iff_agrees e e']
          exact ⟨by rintro ⟨rfl, h⟩; exact .unary op h, by rintro ⟨⟩; exact ⟨rfl, ‹_›⟩⟩
      | _ => exact iff_of_false nofun nofun
  | .call _ e es, e' => by
      cases e' with
      | call _ e' es' =>
          simp only [mapPositions, same, decide_true, Bool.true_and, Bool.and_eq_true,
            same_iff_agrees e e', sameAll_iff_agrees es es']
          exact ⟨fun h ↦ .call h.1 h.2, by rintro ⟨⟩; exact ⟨‹_›, ‹_›⟩⟩
      | _ => exact iff_of_false nofun nofun
  | .subscript _ e i, e' => by
      cases e' with
      | subscript _ e' i' =>
          simp only [mapPositions, same, decide_true, Bool.true_and, Bool.and_eq_true,
            same_iff_agrees e e', same_iff_agrees i i']
          exact ⟨fun h ↦ .subscript h.1 h.2, by rintro ⟨⟩; exact ⟨‹_›, ‹_›⟩⟩
      | _ => exact iff_of_false nofun nofun
  | .member _ e name, e' => by
      cases e' with
      | member _ e' name' =>
          simp only [mapPositions, same, decide_true, Bool.true_and, Bool.and_eq_true,
            decide_eq_true_iff, same_iff_agrees e e']
          exact ⟨by rintro ⟨h, rfl⟩; exact .member h name, by rintro ⟨⟩; exact ⟨‹_›, rfl⟩⟩
      | _ => exact iff_of_false nofun nofun
  | .array _ es, e' => by
      cases e' with
      | array _ es' =>
          simp only [mapPositions, same, decide_true, Bool.true_and, sameAll_iff_agrees es es']
          exact ⟨.array, by rintro ⟨⟩; assumption⟩
      | _ => exact iff_of_false nofun nofun

theorem Expr.sameAll_iff_agrees : (es es' : List Expr) →
    (sameAll (mapAllPositions (fun _ ↦ c) es) (mapAllPositions (fun _ ↦ c) es') = true ↔
      List.Forall₂ (Agrees Binary64.Equals) es es')
  | [], es' => by
      cases es' with
      | nil => exact iff_of_true rfl .nil
      | cons _ _ => exact iff_of_false nofun nofun
  | e :: es, es' => by
      cases es' with
      | nil => exact iff_of_false nofun nofun
      | cons e' es' =>
          rw [mapAllPositions, mapAllPositions, sameAll, Bool.and_eq_true, same_iff_agrees e e',
            sameAll_iff_agrees es es', List.forall₂_cons]

end

theorem Expr.sameOption_iff_agrees (o o' : Option Expr) :
    sameOption same (o.map (mapPositions fun _ ↦ c)) (o'.map (mapPositions fun _ ↦ c)) = true ↔
      Option.Rel (Agrees Binary64.Equals) o o' :=
  sameOption_iff_rel (same_iff_agrees c) o o'

theorem TypeRef.mapPositions_eq_iff {t u : TypeRef} :
    (t.mapPositions fun _ ↦ c) = (u.mapPositions fun _ ↦ c) ↔ t.Agrees u := by
  obtain ⟨name, optional, _⟩ := t
  obtain ⟨name', optional', _⟩ := u
  simp only [mapPositions, mk.injEq, and_true]
  exact ⟨fun h ↦ ⟨h.1, h.2⟩, fun h ↦ ⟨h.name, h.optional⟩⟩

theorem TypeRef.map_mapPositions_eq_iff (t t' : Option TypeRef) :
    t.map (mapPositions fun _ ↦ c) = t'.map (mapPositions fun _ ↦ c) ↔ Option.Rel Agrees t t' := by
  cases t with
  | none =>
      cases t' with
      | none => exact iff_of_true rfl .none
      | some _ => exact iff_of_false nofun nofun
  | some t =>
      cases t' with
      | none => exact iff_of_false nofun nofun
      | some t' =>
          rw [Option.map_some, Option.map_some, Option.some_inj, mapPositions_eq_iff]
          exact ⟨.some, by rintro ⟨⟩; assumption⟩

theorem Parameter.same_iff_agrees (p q : Parameter) :
    (p.mapPositions fun _ ↦ c).same (q.mapPositions fun _ ↦ c) = true ↔
      p.Agrees Binary64.Equals q := by
  rw [mapPositions, mapPositions, same]
  simp only [Bool.and_eq_true, decide_eq_true_iff, and_true, TypeRef.map_mapPositions_eq_iff,
    Expr.sameOption_iff_agrees]
  exact ⟨fun h ↦ ⟨h.1.1, h.1.2, h.2⟩, fun h ↦ ⟨⟨h.name, h.type⟩, h.default⟩⟩

/-! Statements of different kinds are neither the same nor do they agree. -/

theorem Stmt.ctorIdx_eq_of_same {s s' : Stmt} (h : s.same s' = true) :
    s.ctorIdx = s'.ctorIdx := by
  rw [Stmt.same.eq_def] at h
  split at h <;> first | rfl | cases h

theorem Stmt.ctorIdx_mapPositions (f : Position → Position) (s : Stmt) :
    (s.mapPositions f).ctorIdx = s.ctorIdx := by
  cases s with
  | conditional _ _ o => cases o <;> simp only [mapPositions] <;> rfl
  | _ => simp only [mapPositions]; rfl

theorem Stmt.same_iff_agrees_of_ne {s s' : Stmt} (h : s.ctorIdx ≠ s'.ctorIdx) :
    (s.mapPositions fun _ ↦ c).same (s'.mapPositions fun _ ↦ c) = true ↔
      s.Agrees Binary64.Equals s' := by
  refine iff_of_false (fun hsame ↦ h ?_) (fun hagrees ↦ h ?_)
  · simpa only [ctorIdx_mapPositions] using ctorIdx_eq_of_same hsame
  · cases hagrees <;> rfl

mutual

theorem Stmt.same_iff_agrees : (s s' : Stmt) →
    ((s.mapPositions fun _ ↦ c).same (s'.mapPositions fun _ ↦ c) = true ↔
      s.Agrees Binary64.Equals s')
  | .expression _ e, s' => by
      cases s' with
      | expression _ e' =>
          simp only [Stmt.mapPositions, Stmt.same, decide_true, Bool.true_and,
            Expr.same_iff_agrees]
          exact ⟨.expression, by rintro ⟨⟩; assumption⟩
      | _ => exact Stmt.same_iff_agrees_of_ne c nofun
  | .varDecl _ name k t e, s' => by
      cases s' with
      | varDecl _ name' k' t' e' =>
          simp only [Stmt.mapPositions, Stmt.same, decide_true, Bool.true_and, Bool.and_eq_true,
            decide_eq_true_iff, TypeRef.map_mapPositions_eq_iff, Expr.sameOption_iff_agrees]
          exact ⟨by rintro ⟨⟨⟨rfl, rfl⟩, ht⟩, he⟩; exact .varDecl name k ht he,
            by rintro ⟨⟩; exact ⟨⟨⟨rfl, rfl⟩, ‹_›⟩, ‹_›⟩⟩
      | _ => exact Stmt.same_iff_agrees_of_ne c nofun
  | .fnDecl _ name ps t b, s' => by
      cases s' with
      | fnDecl _ name' ps' t' b' =>
          simp only [Stmt.mapPositions, Stmt.same, decide_true, Bool.true_and, Bool.and_eq_true,
            decide_eq_true_iff, sameList_iff_forall₂ (Parameter.same_iff_agrees c),
            TypeRef.map_mapPositions_eq_iff, Block.same_iff_agrees b b']
          exact ⟨by rintro ⟨⟨⟨rfl, hps⟩, ht⟩, hb⟩; exact .fnDecl name hps ht hb,
            by rintro ⟨⟩; exact ⟨⟨⟨rfl, ‹_›⟩, ‹_›⟩, ‹_›⟩⟩
      | _ => exact Stmt.same_iff_agrees_of_ne c nofun
  | .returning _ e, s' => by
      cases s' with
      | returning _ e' =>
          simp only [Stmt.mapPositions, Stmt.same, decide_true, Bool.true_and,
            Expr.sameOption_iff_agrees]
          exact ⟨.returning, by rintro ⟨⟩; assumption⟩
      | _ => exact Stmt.same_iff_agrees_of_ne c nofun
  | .conditional _ bs none, s' => by
      cases s' with
      | conditional _ bs' o' =>
          cases o' with
          | none =>
              simp only [Stmt.mapPositions, Stmt.same, decide_true, Bool.true_and,
                Branch.sameAll_iff_agrees bs bs']
              exact ⟨fun h ↦ .conditional h .none,
                fun h ↦ by cases h with | conditional hbs _ => exact hbs⟩
          | some b' =>
              simp only [Stmt.mapPositions, Stmt.same, Bool.false_eq_true, false_iff]
              intro h
              cases h with | conditional _ ho => cases ho
      | _ => exact Stmt.same_iff_agrees_of_ne c nofun
  | .conditional _ bs (some b), s' => by
      cases s' with
      | conditional _ bs' o' =>
          cases o' with
          | none =>
              simp only [Stmt.mapPositions, Stmt.same, Bool.false_eq_true, false_iff]
              intro h
              cases h with | conditional _ ho => cases ho
          | some b' =>
              simp only [Stmt.mapPositions, Stmt.same, decide_true, Bool.true_and,
                Bool.and_eq_true, Branch.sameAll_iff_agrees bs bs', Block.same_iff_agrees b b']
              refine ⟨fun h ↦ .conditional h.1 (.some h.2), fun h ↦ ?_⟩
              cases h with
              | conditional hbs ho => cases ho with | some hb => exact ⟨hbs, hb⟩
      | _ => exact Stmt.same_iff_agrees_of_ne c nofun
  | .whileLoop _ e b, s' => by
      cases s' with
      | whileLoop _ e' b' =>
          simp only [Stmt.mapPositions, Stmt.same, decide_true, Bool.true_and, Bool.and_eq_true,
            Expr.same_iff_agrees, Block.same_iff_agrees b b']
          exact ⟨fun h ↦ .whileLoop h.1 h.2, by rintro ⟨⟩; exact ⟨‹_›, ‹_›⟩⟩
      | _ => exact Stmt.same_iff_agrees_of_ne c nofun
  | .forLoop _ name e b, s' => by
      cases s' with
      | forLoop _ name' e' b' =>
          simp only [Stmt.mapPositions, Stmt.same, decide_true, Bool.true_and, Bool.and_eq_true,
            decide_eq_true_iff, Expr.same_iff_agrees, Block.same_iff_agrees b b']
          exact ⟨by rintro ⟨⟨rfl, he⟩, hb⟩; exact .forLoop name he hb,
            by rintro ⟨⟩; exact ⟨⟨rfl, ‹_›⟩, ‹_›⟩⟩
      | _ => exact Stmt.same_iff_agrees_of_ne c nofun
  | .breaking _, s' => by
      cases s' with
      | breaking _ =>
          simp only [Stmt.mapPositions, Stmt.same, decide_true]
          exact iff_of_true trivial .breaking
      | _ => exact Stmt.same_iff_agrees_of_ne c nofun
  | .continuing _, s' => by
      cases s' with
      | continuing _ =>
          simp only [Stmt.mapPositions, Stmt.same, decide_true]
          exact iff_of_true trivial .continuing
      | _ => exact Stmt.same_iff_agrees_of_ne c nofun
  | .pass _, s' => by
      cases s' with
      | pass _ =>
          simp only [Stmt.mapPositions, Stmt.same, decide_true]
          exact iff_of_true trivial .pass
      | _ => exact Stmt.same_iff_agrees_of_ne c nofun
  | .assignment _ t op e, s' => by
      cases s' with
      | assignment _ t' op' e' =>
          simp only [Stmt.mapPositions, Stmt.same, decide_true, Bool.true_and, Bool.and_eq_true,
            decide_eq_true_iff, Expr.same_iff_agrees]
          exact ⟨by rintro ⟨⟨ht, rfl⟩, he⟩; exact .assignment op ht he,
            by rintro ⟨⟩; exact ⟨⟨‹_›, rfl⟩, ‹_›⟩⟩
      | _ => exact Stmt.same_iff_agrees_of_ne c nofun
  | .classDecl _ name b, s' => by
      cases s' with
      | classDecl _ name' b' =>
          simp only [Stmt.mapPositions, Stmt.same, decide_true, Bool.true_and, Bool.and_eq_true,
            decide_eq_true_iff, Block.same_iff_agrees b b']
          exact ⟨by rintro ⟨rfl, hb⟩; exact .classDecl name hb, by rintro ⟨⟩; exact ⟨rfl, ‹_›⟩⟩
      | _ => exact Stmt.same_iff_agrees_of_ne c nofun
  | .importing _ m items a, s' => by
      cases s' with
      | importing _ m' items' a' =>
          simp only [Stmt.mapPositions, Stmt.same, decide_true, Bool.true_and, Bool.and_eq_true,
            decide_eq_true_iff]
          exact ⟨by rintro ⟨⟨rfl, rfl⟩, rfl⟩; exact .importing m items a,
            by rintro ⟨⟩; exact ⟨⟨rfl, rfl⟩, rfl⟩⟩
      | _ => exact Stmt.same_iff_agrees_of_ne c nofun

theorem Stmt.sameAll_iff_agrees : (ss ss' : List Stmt) →
    (Stmt.sameAll (Stmt.mapAllPositions (fun _ ↦ c) ss) (Stmt.mapAllPositions (fun _ ↦ c) ss') =
      true ↔ List.Forall₂ (Stmt.Agrees Binary64.Equals) ss ss')
  | [], ss' => by
      cases ss' with
      | nil =>
          simp only [Stmt.mapAllPositions, Stmt.sameAll]
          exact iff_of_true trivial .nil
      | cons _ _ =>
          simp only [Stmt.mapAllPositions, Stmt.sameAll]
          exact iff_of_false nofun nofun
  | s :: ss, ss' => by
      cases ss' with
      | nil =>
          simp only [Stmt.mapAllPositions, Stmt.sameAll]
          exact iff_of_false nofun nofun
      | cons s' ss' =>
          rw [Stmt.mapAllPositions, Stmt.mapAllPositions, Stmt.sameAll, Bool.and_eq_true,
            Stmt.same_iff_agrees s s', Stmt.sameAll_iff_agrees ss ss', List.forall₂_cons]

theorem Block.same_iff_agrees : (b b' : Block) →
    ((b.mapPositions fun _ ↦ c).same (b'.mapPositions fun _ ↦ c) = true ↔
      b.Agrees Binary64.Equals b')
  | ⟨_, ss⟩, ⟨_, ss'⟩ => by
      simp only [Block.mapPositions, Block.same, decide_true, Bool.true_and,
        Stmt.sameAll_iff_agrees ss ss']
      exact ⟨.mk, by rintro ⟨⟩; assumption⟩

theorem Branch.same_iff_agrees : (b b' : Branch) →
    ((b.mapPositions fun _ ↦ c).same (b'.mapPositions fun _ ↦ c) = true ↔
      b.Agrees Binary64.Equals b')
  | ⟨e, b⟩, ⟨e', b'⟩ => by
      simp only [Branch.mapPositions, Branch.same, Bool.and_eq_true, Expr.same_iff_agrees,
        Block.same_iff_agrees b b']
      exact ⟨fun h ↦ .mk h.1 h.2, by rintro ⟨⟩; exact ⟨‹_›, ‹_›⟩⟩

theorem Branch.sameAll_iff_agrees : (bs bs' : List Branch) →
    (Branch.sameAll (Branch.mapAllPositions (fun _ ↦ c) bs)
        (Branch.mapAllPositions (fun _ ↦ c) bs') = true ↔
      List.Forall₂ (Branch.Agrees Binary64.Equals) bs bs')
  | [], bs' => by
      cases bs' with
      | nil =>
          simp only [Branch.mapAllPositions, Branch.sameAll]
          exact iff_of_true trivial .nil
      | cons _ _ =>
          simp only [Branch.mapAllPositions, Branch.sameAll]
          exact iff_of_false nofun nofun
  | b :: bs, bs' => by
      cases bs' with
      | nil =>
          simp only [Branch.mapAllPositions, Branch.sameAll]
          exact iff_of_false nofun nofun
      | cons b' bs' =>
          rw [Branch.mapAllPositions, Branch.mapAllPositions, Branch.sameAll, Bool.and_eq_true,
            Branch.same_iff_agrees b b', Branch.sameAll_iff_agrees bs bs', List.forall₂_cons]

end

theorem Program.same_iff_agrees (p q : Program) :
    (p.mapPositions fun _ ↦ c).same (q.mapPositions fun _ ↦ c) = true ↔
      p.Agrees Binary64.Equals q := by
  rw [mapPositions, mapPositions, same, Bool.and_eq_true, ← Stmt.mapAllPositions_eq_map,
    ← Stmt.mapAllPositions_eq_map, Stmt.sameAll_iff_agrees]
  exact and_iff_right (decide_eq_true rfl)

end

/-! Moving positions changes nothing else. -/

section

variable (f : Position → Position)

mutual

theorem Expr.agrees_mapPositions : (e : Expr) → (e.mapPositions f).Agrees Eq e
  | .integer _ n => .integer n
  | .float _ _ => .float rfl
  | .string _ s => .string s
  | .boolean _ b => .boolean b
  | .null _ => .null
  | .symbol _ name => .symbol name
  | .binary _ op l r => .binary op (agrees_mapPositions l) (agrees_mapPositions r)
  | .unary _ op e => .unary op (agrees_mapPositions e)
  | .call _ e es => .call (agrees_mapPositions e) (agrees_mapAllPositions es)
  | .subscript _ e i => .subscript (agrees_mapPositions e) (agrees_mapPositions i)
  | .member _ e name => .member (agrees_mapPositions e) name
  | .array _ es => .array (agrees_mapAllPositions es)

theorem Expr.agrees_mapAllPositions :
    (es : List Expr) → List.Forall₂ (Agrees Eq) (mapAllPositions f es) es
  | [] => .nil
  | e :: es => .cons (agrees_mapPositions e) (agrees_mapAllPositions es)

end

theorem Option.rel_map_self {α : Type} {S : α → α → Prop} {g : α → α} (h : ∀ a, S (g a) a)
    (o : Option α) : Option.Rel S (o.map g) o := by
  cases o with
  | none => exact .none
  | some a => exact .some (h a)

theorem TypeRef.agrees_mapPositions (t : TypeRef) : (t.mapPositions f).Agrees t :=
  ⟨rfl, rfl⟩

theorem Parameter.agrees_mapPositions (p : Parameter) : (p.mapPositions f).Agrees Eq p where
  name := rfl
  type := Option.rel_map_self (TypeRef.agrees_mapPositions f) p.type
  default := Option.rel_map_self (Expr.agrees_mapPositions f) p.default

theorem Parameter.forall₂_mapPositions (ps : List Parameter) :
    List.Forall₂ (Parameter.Agrees Eq) (ps.map (Parameter.mapPositions f)) ps :=
  List.forall₂_map_left_iff.mpr (List.forall₂_same.mpr fun p _ ↦ p.agrees_mapPositions f)

mutual

theorem Stmt.agrees_mapPositions : (s : Stmt) → (s.mapPositions f).Agrees Eq s
  | .expression _ e => by
      rw [Stmt.mapPositions]
      exact .expression (e.agrees_mapPositions f)
  | .varDecl _ name k t e => by
      rw [Stmt.mapPositions]
      exact .varDecl name k (Option.rel_map_self (TypeRef.agrees_mapPositions f) t)
        (Option.rel_map_self (Expr.agrees_mapPositions f) e)
  | .fnDecl _ name ps t b => by
      rw [Stmt.mapPositions]
      exact .fnDecl name (Parameter.forall₂_mapPositions f ps)
        (Option.rel_map_self (TypeRef.agrees_mapPositions f) t) (Block.agrees_mapPositions b)
  | .returning _ e => by
      rw [Stmt.mapPositions]
      exact .returning (Option.rel_map_self (Expr.agrees_mapPositions f) e)
  | .conditional _ bs none => by
      rw [Stmt.mapPositions]
      exact .conditional (Branch.agrees_mapAllPositions bs) .none
  | .conditional _ bs (some b) => by
      rw [Stmt.mapPositions]
      exact .conditional (Branch.agrees_mapAllPositions bs) (.some (Block.agrees_mapPositions b))
  | .whileLoop _ e b => by
      rw [Stmt.mapPositions]
      exact .whileLoop (e.agrees_mapPositions f) (Block.agrees_mapPositions b)
  | .forLoop _ name e b => by
      rw [Stmt.mapPositions]
      exact .forLoop name (e.agrees_mapPositions f) (Block.agrees_mapPositions b)
  | .breaking _ => by
      rw [Stmt.mapPositions]
      exact .breaking
  | .continuing _ => by
      rw [Stmt.mapPositions]
      exact .continuing
  | .pass _ => by
      rw [Stmt.mapPositions]
      exact .pass
  | .assignment _ t op e => by
      rw [Stmt.mapPositions]
      exact .assignment op (t.agrees_mapPositions f) (e.agrees_mapPositions f)
  | .classDecl _ name b => by
      rw [Stmt.mapPositions]
      exact .classDecl name (Block.agrees_mapPositions b)
  | .importing _ module items localName => by
      rw [Stmt.mapPositions]
      exact .importing module items localName

theorem Stmt.agrees_mapAllPositions :
    (ss : List Stmt) → List.Forall₂ (Stmt.Agrees Eq) (Stmt.mapAllPositions f ss) ss
  | [] => by
      rw [Stmt.mapAllPositions]
      exact .nil
  | s :: ss => by
      rw [Stmt.mapAllPositions]
      exact .cons (Stmt.agrees_mapPositions s) (Stmt.agrees_mapAllPositions ss)

theorem Block.agrees_mapPositions : (b : Block) → (b.mapPositions f).Agrees Eq b
  | ⟨_, ss⟩ => by
      rw [Block.mapPositions]
      exact .mk (Stmt.agrees_mapAllPositions ss)

theorem Branch.agrees_mapPositions : (b : Branch) → (b.mapPositions f).Agrees Eq b
  | ⟨e, b⟩ => by
      rw [Branch.mapPositions]
      exact .mk (e.agrees_mapPositions f) (Block.agrees_mapPositions b)

theorem Branch.agrees_mapAllPositions :
    (bs : List Branch) → List.Forall₂ (Branch.Agrees Eq) (Branch.mapAllPositions f bs) bs
  | [] => by
      rw [Branch.mapAllPositions]
      exact .nil
  | b :: bs => by
      rw [Branch.mapAllPositions]
      exact .cons (Branch.agrees_mapPositions b) (Branch.agrees_mapAllPositions bs)

end

theorem Program.agrees_mapPositions (p : Program) : (p.mapPositions f).Agrees Eq p := by
  rw [Program.Agrees, mapPositions, ← Stmt.mapAllPositions_eq_map]
  exact Stmt.agrees_mapAllPositions f p.body

end

/-- Programs are alike exactly if they agree, where doubles are compared as IEEE 754 has it. A
program whose positions are forgotten has none left and is otherwise the same, so there is nothing
left to forget. -/
theorem alike_iff_agrees_and_erase (p q : Program) :
    (p.alike q = true ↔ p.Agrees Binary64.Equals q) ∧
      (∀ n ∈ (Node.program p.erase).walk, n.position = .unset) ∧
      p.erase.Agrees Eq p ∧ p.erase.erase = p.erase := by
  refine ⟨Program.same_iff_agrees .unset p q, fun n hn ↦ ?_, p.agrees_mapPositions _,
    p.mapPositions_mapPositions _ _⟩
  rw [show Node.program p.erase = (Node.program p).mapPositions fun _ ↦ .unset from rfl,
    Node.walk_mapPositions] at hn
  obtain ⟨m, -, rfl⟩ := List.mem_map.mp hn
  exact Node.position_mapPositions _ m

end Offside
