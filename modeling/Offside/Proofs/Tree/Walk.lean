import Offside.Proofs.Nesting

/-!
# Walks over trees

A walk over a tree takes every node before its children, and the children in the order of the
source. It takes exactly what can be reached from the root on a way down.
-/

namespace Offside

/-! Every child is smaller than its node. -/

section

variable {c : Role × Node} {α : Type} [SizeOf α] {role : Role} {f : α → Node}

theorem sizeOf_le_of_mem_map {as : List α} (h : c ∈ as.map fun a ↦ (role, f a))
    (hf : ∀ a, sizeOf (f a) = 1 + sizeOf a) : sizeOf c.2 ≤ sizeOf as := by
  obtain ⟨a, ha, rfl⟩ := List.mem_map.mp h
  have hlt := List.sizeOf_lt_of_mem ha
  have hfa := hf a
  simp only
  omega

theorem sizeOf_le_of_mem_option {a : Option α} (h : c ∈ a.toList.map fun a ↦ (role, f a))
    (hf : ∀ a, sizeOf (f a) = 1 + sizeOf a) : sizeOf c.2 ≤ sizeOf a := by
  obtain ⟨a, ha, rfl⟩ := List.mem_map.mp h
  obtain rfl := Option.mem_toList.mp ha
  rw [Option.some.sizeOf_spec]
  exact (hf a).le

theorem sizeOf_le_of_mem_branches {bs : List Branch} (h : c ∈ bs.flatMap Branch.children) :
    sizeOf c.2 ≤ sizeOf bs := by
  obtain ⟨b, hb, hc⟩ := List.mem_flatMap.mp h
  have hlt := List.sizeOf_lt_of_mem hb
  obtain ⟨e, b⟩ := b
  rw [Branch.mk.sizeOf_spec] at hlt
  simp only [Branch.children, List.mem_cons, List.not_mem_nil, or_false] at hc
  rcases hc with rfl | rfl
  · rw [Node.expr.sizeOf_spec]
    omega
  · rw [Node.block.sizeOf_spec]
    omega

end

theorem Expr.sizeOf_le_of_mem_children {e : Expr} {c : Role × Node} (h : c ∈ e.children) :
    sizeOf c.2 ≤ sizeOf e := by
  cases e with
  | integer _ _ | float _ _ | string _ _ | boolean _ _ | null _ | symbol _ _ => cases h
  | binary _ _ l r | subscript _ l r =>
      simp only [children, List.mem_cons, List.not_mem_nil, or_false] at h
      rcases h with rfl | rfl <;> simp <;> omega
  | unary _ _ e | member _ e _ =>
      obtain rfl := List.mem_singleton.mp h
      simp
      omega
  | call _ e es =>
      rcases List.mem_cons.mp h with rfl | h
      · simp
        omega
      · have hle := sizeOf_le_of_mem_map h Node.expr.sizeOf_spec
        simp
        omega
  | array _ es =>
      have hle := sizeOf_le_of_mem_map h Node.expr.sizeOf_spec
      simp
      omega

theorem Parameter.sizeOf_le_of_mem_children {p : Parameter} {c : Role × Node}
    (h : c ∈ p.children) : sizeOf c.2 ≤ sizeOf p := by
  have hp : sizeOf p = 1 + sizeOf p.name + sizeOf p.type + sizeOf p.default + sizeOf p.position :=
    Parameter.mk.sizeOf_spec p.name p.type p.default p.position
  rcases List.mem_append.mp h with h | h
  · have hle := sizeOf_le_of_mem_option h Node.type.sizeOf_spec
    omega
  · have hle := sizeOf_le_of_mem_option h Node.expr.sizeOf_spec
    omega

theorem Stmt.sizeOf_le_of_mem_children {s : Stmt} {c : Role × Node} (h : c ∈ s.children) :
    sizeOf c.2 ≤ sizeOf s := by
  cases s with
  | breaking _ | continuing _ | pass _ | importing _ _ _ _ => cases h
  | expression _ _ | classDecl _ _ _ =>
      obtain rfl := List.mem_singleton.mp h
      simp <;> omega
  | whileLoop _ _ _ | forLoop _ _ _ _ | assignment _ _ _ _ =>
      simp only [children, List.mem_cons, List.not_mem_nil, or_false] at h
      rcases h with rfl | rfl <;> simp <;> omega
  | returning _ _ =>
      have hle := sizeOf_le_of_mem_option h Node.expr.sizeOf_spec
      simp
      omega
  | varDecl _ _ _ _ _ =>
      rw [varDecl.sizeOf_spec]
      rcases List.mem_append.mp h with h | h
      · have hle := sizeOf_le_of_mem_option h Node.type.sizeOf_spec
        omega
      · have hle := sizeOf_le_of_mem_option h Node.expr.sizeOf_spec
        omega
  | fnDecl _ _ _ _ _ =>
      rw [fnDecl.sizeOf_spec]
      rcases List.mem_append.mp h with h | h
      · rcases List.mem_append.mp h with h | h
        · have hle := sizeOf_le_of_mem_map h Node.parameter.sizeOf_spec
          omega
        · have hle := sizeOf_le_of_mem_option h Node.type.sizeOf_spec
          omega
      · obtain rfl := List.mem_singleton.mp h
        rw [Node.block.sizeOf_spec]
        omega
  | conditional _ _ _ =>
      rw [conditional.sizeOf_spec]
      rcases List.mem_append.mp h with h | h
      · have hle := sizeOf_le_of_mem_branches h
        omega
      · have hle := sizeOf_le_of_mem_option h Node.block.sizeOf_spec
        omega

namespace Node

/-- Going down a tree comes to an end. -/
theorem sizeOf_lt_of_mem_children {n : Node} {c : Role × Node} (h : c ∈ n.children) :
    sizeOf c.2 < sizeOf n := by
  cases n with
  | program p =>
      have hle := sizeOf_le_of_mem_map h stmt.sizeOf_spec
      have hp : sizeOf p = 1 + sizeOf p.body + sizeOf p.position :=
        Program.mk.sizeOf_spec p.body p.position
      rw [program.sizeOf_spec]
      omega
  | block b =>
      obtain ⟨position, body⟩ := b
      have hle : sizeOf c.2 ≤ sizeOf body := sizeOf_le_of_mem_map h stmt.sizeOf_spec
      rw [block.sizeOf_spec, Block.mk.sizeOf_spec]
      omega
  | type t => cases h
  | parameter p =>
      have hle := p.sizeOf_le_of_mem_children h
      rw [parameter.sizeOf_spec]
      omega
  | expr e =>
      have hle := e.sizeOf_le_of_mem_children h
      rw [expr.sizeOf_spec]
      omega
  | stmt s =>
      have hle := s.sizeOf_le_of_mem_children h
      rw [stmt.sizeOf_spec]
      omega

/-- The node and everything below it, each node before its children. -/
def walk (n : Node) : List Node :=
  n :: n.children.attach.flatMap fun c ↦ walk c.1.2
termination_by sizeOf n
decreasing_by exact sizeOf_lt_of_mem_children c.2

/-- The walks over the nodes of a row one after the other. -/
def walkAll (cs : List (Role × Node)) : List Node :=
  cs.flatMap (·.2.walk)

theorem walk_eq (n : Node) : n.walk = n :: walkAll n.children := by
  have hattach : n.children.attach.flatMap (fun c ↦ c.1.2.walk) =
      (n.children.attach.map Subtype.val).flatMap (·.2.walk) := by rw [List.flatMap_map]
  rw [walk, walkAll, hattach, List.attach_map_subtype_val]

@[simp] theorem walkAll_nil : walkAll [] = [] := rfl

@[simp] theorem walkAll_cons (c : Role × Node) (cs : List (Role × Node)) :
    walkAll (c :: cs) = c.2.walk ++ walkAll cs := rfl

@[simp] theorem walkAll_append (cs ds : List (Role × Node)) :
    walkAll (cs ++ ds) = walkAll cs ++ walkAll ds :=
  List.flatMap_append

@[simp] theorem walkAll_map {α : Type} (role : Role) (f : α → Node) (as : List α) :
    walkAll (as.map fun a ↦ (role, f a)) = as.flatMap fun a ↦ (f a).walk :=
  List.flatMap_map _ _ _

/-- A walk passes through all that a way down leads to, and through nothing else. -/
theorem mem_walk_iff {n m : Node} : m ∈ n.walk ↔ ∃ roles, n.Path roles m := by
  constructor
  · intro h
    induction n using walk.induct with
    | case1 n ih =>
        rw [walk_eq] at h
        rcases List.mem_cons.mp h with rfl | h
        · exact ⟨[], .here m⟩
        · obtain ⟨c, hc, hm⟩ := List.mem_flatMap.mp h
          obtain ⟨roles, hpath⟩ := ih ⟨c, hc⟩ hm
          exact ⟨c.1 :: roles, .down hc hpath⟩
  · rintro ⟨roles, hpath⟩
    induction hpath with
    | here n =>
        rw [walk_eq]
        exact List.mem_cons_self
    | down hchild _ ih =>
        rw [walk_eq]
        exact List.mem_cons_of_mem _ (List.mem_flatMap.mpr ⟨_, hchild, ih⟩)

end Node
end Offside
