import Offside.Tree.Positions

/-!
# Equality of trees

Two trees are the same if they agree everywhere, positions included, where doubles are compared as
numbers. They are alike if they are the same once their positions are forgotten.
-/

namespace Offside

/-- Whether both are absent, or both present and related. -/
def sameOption {α : Type} (same : α → α → Bool) : Option α → Option α → Bool
  | none, none => true
  | some a, some b => same a b
  | _, _ => false

/-- Whether two lists are equally long and related place by place. -/
def sameList {α : Type} (same : α → α → Bool) : List α → List α → Bool
  | [], [] => true
  | a :: as, b :: bs => same a b && sameList same as bs
  | _, _ => false

mutual

def Expr.same : Expr → Expr → Bool
  | .integer p m, .integer q n => p = q && m = n
  | .float p x, .float q y => p = q && x.same y
  | .string p s, .string q t => p = q && s = t
  | .boolean p b, .boolean q c => p = q && b = c
  | .null p, .null q => p = q
  | .symbol p s, .symbol q t => p = q && s = t
  | .binary p op l r, .binary q op' l' r' => p = q && op = op' && l.same l' && r.same r'
  | .unary p op e, .unary q op' e' => p = q && op = op' && e.same e'
  | .call p e es, .call q e' es' => p = q && e.same e' && Expr.sameAll es es'
  | .subscript p e i, .subscript q e' i' => p = q && e.same e' && i.same i'
  | .member p e s, .member q e' t => p = q && e.same e' && s = t
  | .array p es, .array q es' => p = q && Expr.sameAll es es'
  | _, _ => false

def Expr.sameAll : List Expr → List Expr → Bool
  | [], [] => true
  | e :: es, e' :: es' => e.same e' && Expr.sameAll es es'
  | _, _ => false

end

def Parameter.same (p q : Parameter) : Bool :=
  p.name = q.name && p.type = q.type && sameOption Expr.same p.default q.default &&
    p.position = q.position

mutual

def Stmt.same : Stmt → Stmt → Bool
  | .expression p e, .expression q e' => p = q && e.same e'
  | .varDecl p s c t e, .varDecl q s' c' t' e' =>
      p = q && s = s' && c = c' && t = t' && sameOption Expr.same e e'
  | .fnDecl p s ps t b, .fnDecl q s' ps' t' b' =>
      p = q && s = s' && sameList Parameter.same ps ps' && t = t' && b.same b'
  | .returning p e, .returning q e' => p = q && sameOption Expr.same e e'
  | .conditional p bs none, .conditional q bs' none => p = q && Branch.sameAll bs bs'
  | .conditional p bs (some b), .conditional q bs' (some b') =>
      p = q && Branch.sameAll bs bs' && b.same b'
  | .whileLoop p e b, .whileLoop q e' b' => p = q && e.same e' && b.same b'
  | .forLoop p s e b, .forLoop q s' e' b' => p = q && s = s' && e.same e' && b.same b'
  | .breaking p, .breaking q => p = q
  | .continuing p, .continuing q => p = q
  | .pass p, .pass q => p = q
  | .assignment p t op e, .assignment q t' op' e' =>
      p = q && t.same t' && op = op' && e.same e'
  | .classDecl p s b, .classDecl q s' b' => p = q && s = s' && b.same b'
  | .importing p m is a, .importing q m' is' a' => p = q && m = m' && is = is' && a = a'
  | _, _ => false

def Stmt.sameAll : List Stmt → List Stmt → Bool
  | [], [] => true
  | s :: ss, s' :: ss' => s.same s' && Stmt.sameAll ss ss'
  | _, _ => false

def Block.same : Block → Block → Bool
  | ⟨p, ss⟩, ⟨q, ss'⟩ => p = q && Stmt.sameAll ss ss'

def Branch.same : Branch → Branch → Bool
  | ⟨e, b⟩, ⟨e', b'⟩ => e.same e' && b.same b'

def Branch.sameAll : List Branch → List Branch → Bool
  | [], [] => true
  | b :: bs, b' :: bs' => b.same b' && Branch.sameAll bs bs'
  | _, _ => false

end

def Program.same (p q : Program) : Bool :=
  p.position = q.position && Stmt.sameAll p.body q.body

/-- Equality up to positions. -/
def Program.alike (p q : Program) : Bool :=
  p.erase.same q.erase

end Offside
