import Offside.Tree.Basic

/-!
# Moving and forgetting positions

Applying a function to every position of a tree leaves all else as it is. Forgetting the positions
is the case of the constant function; two trees that differ only in layout are then the same.
-/

namespace Offside

mutual

def Expr.mapPositions (f : Position → Position) : Expr → Expr
  | .integer p n => .integer (f p) n
  | .float p x => .float (f p) x
  | .string p s => .string (f p) s
  | .boolean p b => .boolean (f p) b
  | .null p => .null (f p)
  | .symbol p s => .symbol (f p) s
  | .binary p op l r => .binary (f p) op (l.mapPositions f) (r.mapPositions f)
  | .unary p op e => .unary (f p) op (e.mapPositions f)
  | .call p e es => .call (f p) (e.mapPositions f) (Expr.mapAllPositions f es)
  | .subscript p e i => .subscript (f p) (e.mapPositions f) (i.mapPositions f)
  | .member p e s => .member (f p) (e.mapPositions f) s
  | .array p es => .array (f p) (Expr.mapAllPositions f es)

def Expr.mapAllPositions (f : Position → Position) : List Expr → List Expr
  | [] => []
  | e :: es => e.mapPositions f :: Expr.mapAllPositions f es

end

theorem Expr.mapAllPositions_eq_map (f : Position → Position) (es : List Expr) :
    Expr.mapAllPositions f es = es.map (Expr.mapPositions f) := by
  induction es with
  | nil => rfl
  | cons e es ih => simp [Expr.mapAllPositions, ih]

def TypeRef.mapPositions (f : Position → Position) (t : TypeRef) :
    TypeRef :=
  { t with position := f t.position }

def Parameter.mapPositions (f : Position → Position) (p : Parameter) : Parameter :=
  { name := p.name
    type := p.type.map (TypeRef.mapPositions f)
    default := p.default.map (Expr.mapPositions f)
    position := f p.position }

mutual

def Stmt.mapPositions (f : Position → Position) : Stmt → Stmt
  | .expression p e => .expression (f p) (e.mapPositions f)
  | .varDecl p s c t e => .varDecl (f p) s c (t.map (TypeRef.mapPositions f))
      (e.map (Expr.mapPositions f))
  | .fnDecl p s ps t b => .fnDecl (f p) s (ps.map (Parameter.mapPositions f))
      (t.map (TypeRef.mapPositions f)) (b.mapPositions f)
  | .returning p e => .returning (f p) (e.map (Expr.mapPositions f))
  | .conditional p bs none => .conditional (f p) (Branch.mapAllPositions f bs) none
  | .conditional p bs (some b) =>
      .conditional (f p) (Branch.mapAllPositions f bs) (some (b.mapPositions f))
  | .whileLoop p e b => .whileLoop (f p) (e.mapPositions f) (b.mapPositions f)
  | .forLoop p s e b => .forLoop (f p) s (e.mapPositions f) (b.mapPositions f)
  | .breaking p => .breaking (f p)
  | .continuing p => .continuing (f p)
  | .pass p => .pass (f p)
  | .assignment p t op e => .assignment (f p) (t.mapPositions f) op (e.mapPositions f)
  | .classDecl p s b => .classDecl (f p) s (b.mapPositions f)
  | .importing p m is a => .importing (f p) m is a

def Stmt.mapAllPositions (f : Position → Position) : List Stmt → List Stmt
  | [] => []
  | s :: ss => s.mapPositions f :: Stmt.mapAllPositions f ss

def Block.mapPositions (f : Position → Position) : Block → Block
  | ⟨p, ss⟩ => ⟨f p, Stmt.mapAllPositions f ss⟩

def Branch.mapPositions (f : Position → Position) : Branch → Branch
  | ⟨e, b⟩ => ⟨e.mapPositions f, b.mapPositions f⟩

def Branch.mapAllPositions (f : Position → Position) : List Branch → List Branch
  | [] => []
  | b :: bs => b.mapPositions f :: Branch.mapAllPositions f bs

end

theorem Stmt.mapAllPositions_eq_map (f : Position → Position) (ss : List Stmt) :
    Stmt.mapAllPositions f ss = ss.map (Stmt.mapPositions f) := by
  induction ss with
  | nil => rfl
  | cons s ss ih => simp [Stmt.mapAllPositions, ih]

theorem Branch.mapAllPositions_eq_map (f : Position → Position) (bs : List Branch) :
    Branch.mapAllPositions f bs = bs.map (Branch.mapPositions f) := by
  induction bs with
  | nil => rfl
  | cons b bs ih => simp [Branch.mapAllPositions, ih]

def Program.mapPositions (f : Position → Position) (p : Program) : Program :=
  ⟨p.body.map (Stmt.mapPositions f), f p.position⟩

def Expr.erase : Expr → Expr := Expr.mapPositions fun _ ↦ .unset

def TypeRef.erase : TypeRef → TypeRef :=
  TypeRef.mapPositions fun _ ↦ .unset

def Parameter.erase : Parameter → Parameter := Parameter.mapPositions fun _ ↦ .unset

def Stmt.erase : Stmt → Stmt := Stmt.mapPositions fun _ ↦ .unset

def Block.erase : Block → Block := Block.mapPositions fun _ ↦ .unset

def Program.erase : Program → Program := Program.mapPositions fun _ ↦ .unset

/-! Leaving every position where it is. -/

mutual

theorem Expr.mapPositions_id : (e : Expr) → e.mapPositions id = e
  | .integer _ _ | .float _ _ | .string _ _ | .boolean _ _ | .null _ | .symbol _ _ => rfl
  | .binary _ _ l r => by rw [mapPositions, mapPositions_id l, mapPositions_id r, id]
  | .unary _ _ e => by rw [mapPositions, mapPositions_id e, id]
  | .call _ e es => by rw [mapPositions, mapPositions_id e, mapAllPositions_id es, id]
  | .subscript _ e i => by rw [mapPositions, mapPositions_id e, mapPositions_id i, id]
  | .member _ e _ => by rw [mapPositions, mapPositions_id e, id]
  | .array _ es => by rw [mapPositions, mapAllPositions_id es, id]

theorem Expr.mapAllPositions_id : (es : List Expr) → mapAllPositions id es = es
  | [] => rfl
  | e :: es => by rw [mapAllPositions, mapPositions_id e, mapAllPositions_id es]

end

theorem Expr.mapPositions_eq_id : Expr.mapPositions id = id :=
  funext mapPositions_id

theorem TypeRef.mapPositions_eq_id : TypeRef.mapPositions id = id := rfl

theorem Parameter.mapPositions_eq_id : Parameter.mapPositions id = id := by
  funext p
  rw [mapPositions, TypeRef.mapPositions_eq_id, Expr.mapPositions_eq_id, Option.map_id,
    Option.map_id]
  rfl

mutual

theorem Stmt.mapPositions_id : (s : Stmt) → s.mapPositions id = s
  | .expression _ e => by rw [Stmt.mapPositions, e.mapPositions_id, id]
  | .varDecl _ _ _ t e => by
      rw [Stmt.mapPositions, TypeRef.mapPositions_eq_id, Expr.mapPositions_eq_id, Option.map_id,
        Option.map_id]
      rfl
  | .fnDecl _ _ ps t b => by
      rw [Stmt.mapPositions, Parameter.mapPositions_eq_id, TypeRef.mapPositions_eq_id,
        Option.map_id, List.map_id, b.mapPositions_id]
      rfl
  | .returning _ e => by
      rw [Stmt.mapPositions, Expr.mapPositions_eq_id, Option.map_id]
      rfl
  | .conditional _ bs none => by rw [Stmt.mapPositions, Branch.mapAllPositions_id bs, id]
  | .conditional _ bs (some b) => by
      rw [Stmt.mapPositions, Branch.mapAllPositions_id bs, b.mapPositions_id, id]
  | .whileLoop _ e b => by rw [Stmt.mapPositions, e.mapPositions_id, b.mapPositions_id, id]
  | .forLoop _ _ e b => by rw [Stmt.mapPositions, e.mapPositions_id, b.mapPositions_id, id]
  | .assignment _ t _ e => by rw [Stmt.mapPositions, t.mapPositions_id, e.mapPositions_id, id]
  | .classDecl _ _ b => by rw [Stmt.mapPositions, b.mapPositions_id, id]
  | .breaking _ | .continuing _ | .pass _ | .importing _ _ _ _ => rfl

theorem Stmt.mapAllPositions_id : (ss : List Stmt) → Stmt.mapAllPositions id ss = ss
  | [] => rfl
  | s :: ss => by rw [Stmt.mapAllPositions, s.mapPositions_id, Stmt.mapAllPositions_id ss]

theorem Block.mapPositions_id : (b : Block) → b.mapPositions id = b
  | ⟨_, ss⟩ => by rw [Block.mapPositions, Stmt.mapAllPositions_id ss, id]

theorem Branch.mapPositions_id : (b : Branch) → b.mapPositions id = b
  | ⟨e, b⟩ => by rw [Branch.mapPositions, e.mapPositions_id, b.mapPositions_id]

theorem Branch.mapAllPositions_id : (bs : List Branch) → Branch.mapAllPositions id bs = bs
  | [] => rfl
  | b :: bs => by rw [Branch.mapAllPositions, b.mapPositions_id, Branch.mapAllPositions_id bs]

end

theorem Stmt.mapPositions_eq_id : Stmt.mapPositions id = id :=
  funext Stmt.mapPositions_id

theorem Block.mapPositions_eq_id : Block.mapPositions id = id :=
  funext Block.mapPositions_id

end Offside
