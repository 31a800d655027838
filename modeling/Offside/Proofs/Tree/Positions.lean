import Offside.Tree.Positions
import Offside.Proofs.Tree.Walk

/-!
# Walks over moved trees

Moving the positions of a tree twice is moving them once. A walk over a moved tree meets the nodes
that a walk over the tree meets, each with its position moved.
-/

namespace Offside

/-! Moving positions one step after the other. -/

section

variable (f g : Position → Position)

mutual

theorem Expr.mapPositions_mapPositions :
    (e : Expr) → (e.mapPositions f).mapPositions g = e.mapPositions (g ∘ f)
  | .integer _ _ | .float _ _ | .string _ _ | .boolean _ _ | .null _ | .symbol _ _ => rfl
  | .binary _ _ l r => by
      simp only [mapPositions, mapPositions_mapPositions l, mapPositions_mapPositions r,
        Function.comp]
  | .unary _ _ e => by simp only [mapPositions, mapPositions_mapPositions e, Function.comp]
  | .call _ e es => by
      simp only [mapPositions, mapPositions_mapPositions e, mapAllPositions_mapAllPositions es,
        Function.comp]
  | .subscript _ e i => by
      simp only [mapPositions, mapPositions_mapPositions e, mapPositions_mapPositions i,
        Function.comp]
  | .member _ e _ => by simp only [mapPositions, mapPositions_mapPositions e, Function.comp]
  | .array _ es => by simp only [mapPositions, mapAllPositions_mapAllPositions es, Function.comp]

theorem Expr.mapAllPositions_mapAllPositions :
    (es : List Expr) → mapAllPositions g (mapAllPositions f es) = mapAllPositions (g ∘ f) es
  | [] => rfl
  | e :: es => by
      simp only [mapAllPositions, mapPositions_mapPositions e, mapAllPositions_mapAllPositions es]

end

theorem Expr.mapPositions_comp :
    Expr.mapPositions g ∘ Expr.mapPositions f = Expr.mapPositions (g ∘ f) :=
  funext (Expr.mapPositions_mapPositions f g)

theorem TypeRef.mapPositions_comp :
    TypeRef.mapPositions g ∘ TypeRef.mapPositions f = TypeRef.mapPositions (g ∘ f) := rfl

theorem Parameter.mapPositions_comp :
    Parameter.mapPositions g ∘ Parameter.mapPositions f = Parameter.mapPositions (g ∘ f) := by
  funext p
  simp only [Function.comp_apply, Parameter.mapPositions, Option.map_map,
    TypeRef.mapPositions_comp, Expr.mapPositions_comp]

mutual

theorem Stmt.mapPositions_mapPositions :
    (s : Stmt) → (s.mapPositions f).mapPositions g = s.mapPositions (g ∘ f)
  | .expression _ e => by simp only [Stmt.mapPositions, e.mapPositions_mapPositions, Function.comp]
  | .varDecl _ _ _ _ _ => by
      simp only [Stmt.mapPositions, Option.map_map, TypeRef.mapPositions_comp,
        Expr.mapPositions_comp, Function.comp_apply]
  | .fnDecl _ _ _ _ b => by
      simp only [Stmt.mapPositions, List.map_map, Option.map_map, Parameter.mapPositions_comp,
        TypeRef.mapPositions_comp, Block.mapPositions_mapPositions b, Function.comp_apply]
  | .returning _ _ => by
      simp only [Stmt.mapPositions, Option.map_map, Expr.mapPositions_comp, Function.comp_apply]
  | .conditional _ bs none => by
      simp only [Stmt.mapPositions, Branch.mapAllPositions_mapAllPositions bs, Function.comp]
  | .conditional _ bs (some b) => by
      simp only [Stmt.mapPositions, Branch.mapAllPositions_mapAllPositions bs,
        Block.mapPositions_mapPositions b, Function.comp]
  | .whileLoop _ e b | .forLoop _ _ e b => by
      simp only [Stmt.mapPositions, e.mapPositions_mapPositions, Block.mapPositions_mapPositions b,
        Function.comp]
  | .assignment _ t _ e => by
      simp only [Stmt.mapPositions, t.mapPositions_mapPositions, e.mapPositions_mapPositions,
        Function.comp]
  | .classDecl _ _ b => by
      simp only [Stmt.mapPositions, Block.mapPositions_mapPositions b, Function.comp]
  | .breaking _ | .continuing _ | .pass _ | .importing _ _ _ _ => rfl

theorem Stmt.mapAllPositions_mapAllPositions :
    (ss : List Stmt) →
      Stmt.mapAllPositions g (Stmt.mapAllPositions f ss) = Stmt.mapAllPositions (g ∘ f) ss
  | [] => rfl
  | s :: ss => by
      simp only [Stmt.mapAllPositions, Stmt.mapPositions_mapPositions s,
        Stmt.mapAllPositions_mapAllPositions ss]

theorem Block.mapPositions_mapPositions :
    (b : Block) → (b.mapPositions f).mapPositions g = b.mapPositions (g ∘ f)
  | ⟨_, ss⟩ => by
      simp only [Block.mapPositions, Stmt.mapAllPositions_mapAllPositions ss, Function.comp]

theorem Branch.mapPositions_mapPositions :
    (b : Branch) → (b.mapPositions f).mapPositions g = b.mapPositions (g ∘ f)
  | ⟨e, b⟩ => by
      simp only [Branch.mapPositions, e.mapPositions_mapPositions,
        Block.mapPositions_mapPositions b]

theorem Branch.mapAllPositions_mapAllPositions :
    (bs : List Branch) →
      Branch.mapAllPositions g (Branch.mapAllPositions f bs) = Branch.mapAllPositions (g ∘ f) bs
  | [] => rfl
  | b :: bs => by
      simp only [Branch.mapAllPositions, Branch.mapPositions_mapPositions b,
        Branch.mapAllPositions_mapAllPositions bs]

end

theorem Stmt.mapPositions_comp :
    Stmt.mapPositions g ∘ Stmt.mapPositions f = Stmt.mapPositions (g ∘ f) :=
  funext (Stmt.mapPositions_mapPositions f g)

theorem Program.mapPositions_mapPositions (p : Program) :
    (p.mapPositions f).mapPositions g = p.mapPositions (g ∘ f) := by
  simp only [mapPositions, List.map_map, Stmt.mapPositions_comp, Function.comp_apply]

end

/-! The nodes of moved trees. -/

section

variable (f : Position → Position)

def Node.mapPositions : Node → Node
  | .program p => .program (p.mapPositions f)
  | .stmt s => .stmt (s.mapPositions f)
  | .block b => .block (b.mapPositions f)
  | .parameter p => .parameter (p.mapPositions f)
  | .type t => .type (t.mapPositions f)
  | .expr e => .expr (e.mapPositions f)

/-- A child with its position and those below it moved. -/
def moveChild (c : Role × Node) : Role × Node :=
  (c.1, c.2.mapPositions f)

theorem Expr.children_mapPositions (e : Expr) :
    (e.mapPositions f).children = e.children.map (moveChild f) := by
  cases e with
  | call _ e es | array _ es =>
      simp [mapPositions, mapAllPositions_eq_map, children, moveChild, Node.mapPositions]
  | _ => rfl

theorem typeChild_mapPositions (role : Role) (t : Option TypeRef) :
    typeChild role (t.map (TypeRef.mapPositions f)) = (typeChild role t).map (moveChild f) := by
  cases t <;> rfl

theorem exprChild_mapPositions (role : Role) (e : Option Expr) :
    exprChild role (e.map (Expr.mapPositions f)) = (exprChild role e).map (moveChild f) := by
  cases e <;> rfl

theorem stmtChildren_mapPositions (ss : List Stmt) :
    stmtChildren (ss.map (Stmt.mapPositions f)) = (stmtChildren ss).map (moveChild f) := by
  simp [stmtChildren, moveChild, Node.mapPositions]

theorem Parameter.children_mapPositions (p : Parameter) :
    (p.mapPositions f).children = p.children.map (moveChild f) := by
  rw [children, mapPositions, typeChild_mapPositions, exprChild_mapPositions, ← List.map_append]
  rfl

theorem Branch.children_mapPositions (b : Branch) :
    (b.mapPositions f).children = b.children.map (moveChild f) := by
  cases b
  simp only [mapPositions]
  rfl

theorem Stmt.children_mapPositions (s : Stmt) :
    (s.mapPositions f).children = s.children.map (moveChild f) := by
  have hbranches (bs : List Branch) :
      (Branch.mapAllPositions f bs).flatMap Branch.children =
        (bs.flatMap Branch.children).map (moveChild f) := by
    rw [Branch.mapAllPositions_eq_map, List.flatMap_map, List.map_flatMap]
    exact List.flatMap_congr fun b _ ↦ b.children_mapPositions f
  cases s with
  | varDecl _ _ _ t e =>
      simp only [mapPositions, children, typeChild_mapPositions, exprChild_mapPositions,
        List.map_append]
  | fnDecl _ _ ps t b =>
      simp only [mapPositions, children, typeChild_mapPositions, List.map_append, List.map_map]
      rfl
  | returning _ e => exact exprChild_mapPositions f .value e
  | conditional _ bs o =>
      cases o with
      | none => simp only [mapPositions, children, hbranches, List.map_append]; rfl
      | some b => simp only [mapPositions, children, hbranches, List.map_append]; rfl
  | _ => simp only [mapPositions]; rfl

namespace Node

theorem position_mapPositions (n : Node) : (n.mapPositions f).position = f n.position := by
  cases n with
  | stmt s =>
      cases s with
      | conditional _ bs o => cases o <;> simp only [mapPositions, Stmt.mapPositions] <;> rfl
      | _ => simp only [mapPositions, Stmt.mapPositions]; rfl
  | block b =>
      cases b
      simp only [mapPositions, Block.mapPositions]
      rfl
  | expr e => cases e <;> rfl
  | _ => rfl

theorem children_mapPositions (n : Node) :
    (n.mapPositions f).children = n.children.map (moveChild f) := by
  cases n with
  | program p => exact stmtChildren_mapPositions f p.body
  | stmt s => exact s.children_mapPositions f
  | block b =>
      cases b
      simp only [mapPositions, Block.mapPositions, Stmt.mapAllPositions_eq_map]
      exact stmtChildren_mapPositions f _
  | parameter p => exact p.children_mapPositions f
  | type t => rfl
  | expr e => exact e.children_mapPositions f

/-- A walk over a moved tree is the moved walk. -/
theorem walk_mapPositions (n : Node) :
    (n.mapPositions f).walk = n.walk.map (mapPositions f) := by
  induction n using walk.induct with
  | case1 n ih =>
      rw [walk_eq, walk_eq, List.map_cons, children_mapPositions, walkAll, walkAll,
        List.flatMap_map, List.map_flatMap]
      exact congrArg _ (List.flatMap_congr fun c hc ↦ ih ⟨c, hc⟩)

end Node

end

end Offside
