import Predictive.DerivationTree

/-! # Trees in pre-order

    The nodes of a tree, each before its children and the children from left to
    right (`DerivationTree.Preorder`). The relation goes through the lists of
    children, so it holds only of what is finite and has no dangling numbers.
    The leaves that `DerivationTree.leaves` collects are those of this order.
-/

namespace Predictive.DerivationTree

/-- The trees below these nodes in pre-order. -/
inductive Preorder (t : DerivationTree) : List Nat → List Nat → Prop where
  | nil : Preorder t [] []
  | cons {i : Nat} {node : Node} {siblings below after : List Nat}
    (here : t.nodes[i]? = some node) (children : Preorder t node.children below)
    (rest : Preorder t siblings after) : Preorder t (i :: siblings) (i :: (below ++ after))

/-- The node has children. -/
def isInner (t : DerivationTree) (i : Nat) : Bool :=
  ((t.nodes[i]?).map fun node => !node.children.isEmpty).getD false

/-- The name of a node without children. -/
def leafName? (t : DerivationTree) (i : Nat) : Option String :=
  (t.nodes[i]?).bind fun node => if node.children.isEmpty then some node.symbol else none

variable {t : DerivationTree} {i : Nat} {node : Node} {name : String}
variable {xs ys order order' : List Nat}

theorem isInner_eq (h : t.nodes[i]? = some node) : t.isInner i = !node.children.isEmpty := by
  unfold isInner
  rw [h]
  rfl

theorem leafName?_eq (h : t.nodes[i]? = some node) :
    t.leafName? i = if node.children.isEmpty then some node.symbol else none := by
  unfold leafName?
  rw [h]
  rfl

theorem isInner_leaf (h : t.nodes[i]? = some ⟨name, []⟩) : t.isInner i = false := isInner_eq h

theorem leafName?_leaf (h : t.nodes[i]? = some ⟨name, []⟩) : t.leafName? i = some name :=
  leafName?_eq h

namespace Preorder

theorem append (h : t.Preorder xs order) (k : t.Preorder ys order') :
    t.Preorder (xs ++ ys) (order ++ order') := by
  induction h with
  | nil => exact k
  | cons here children _ _ ih =>
    rw [List.cons_append, List.cons_append, List.append_assoc]
    exact .cons here children ih

theorem exists_append (h : t.Preorder (xs ++ ys) order) :
    ∃ before after, order = before ++ after ∧ t.Preorder xs before ∧ t.Preorder ys after := by
  induction xs generalizing order with
  | nil => exact ⟨[], order, rfl, .nil, h⟩
  | cons x xs ih =>
    cases h with
    | @cons _ _ _ below after here children rest =>
      obtain ⟨before, after, rfl, hbefore, hafter⟩ := ih rest
      refine ⟨x :: (below ++ before), after, ?_, .cons here children hbefore, hafter⟩
      rw [List.cons_append, List.append_assoc]

/-- The children of the first node come right after it. -/
theorem exists_cons (h : t.Preorder (i :: xs) order) (here : t.nodes[i]? = some node) :
    ∃ after, order = i :: after ∧ t.Preorder (node.children ++ xs) after := by
  cases h with
  | @cons _ n _ below after here' children rest =>
    obtain rfl : n = node := Option.some.inj (here'.symm.trans here)
    exact ⟨below ++ after, rfl, children.append rest⟩

/-- A node in front of its children and the rest. -/
theorem of_children (here : t.nodes[i]? = some node) (h : t.Preorder (node.children ++ xs) order) :
    t.Preorder (i :: xs) (i :: order) := by
  obtain ⟨below, after, rfl, children, rest⟩ := h.exists_append
  exact .cons here children rest

/-- Nodes without children are their own order. -/
theorem of_leaves (h : ∀ i ∈ xs, ∃ name, t.nodes[i]? = some ⟨name, []⟩) : t.Preorder xs xs := by
  induction xs with
  | nil => exact .nil
  | cons x xs ih =>
    obtain ⟨name, here⟩ := h x List.mem_cons_self
    exact .of_children here (ih fun y hy => h y (List.mem_cons_of_mem _ hy))

theorem eq_of_leaves (h : t.Preorder xs order)
    (hleaves : ∀ i ∈ xs, ∃ name, t.nodes[i]? = some ⟨name, []⟩) : order = xs := by
  induction xs generalizing order with
  | nil =>
    cases h
    rfl
  | cons x xs ih =>
    obtain ⟨name, here⟩ := hleaves x List.mem_cons_self
    obtain ⟨after, rfl, hafter⟩ := h.exists_cons here
    rw [ih hafter fun y hy => hleaves y (List.mem_cons_of_mem _ hy)]

/-- As many visits as nodes collect the leaves of these trees, in this order. -/
theorem leavesFrom_eq (h : t.Preorder xs order) (fuel : Nat) (waiting : List Nat) :
    t.leavesFrom (order.length + fuel) (xs ++ waiting) =
      order.filterMap t.leafName? ++ t.leavesFrom fuel waiting := by
  induction h generalizing fuel waiting with
  | nil => simp
  | @cons i node siblings below after here children rest ihchildren ihrest =>
    have hfuel : (i :: (below ++ after)).length + fuel =
        below.length + (after.length + fuel) + 1 := by
      rw [List.length_cons, List.length_append]
      omega
    rw [hfuel, List.cons_append, leavesFrom, here, List.filterMap_cons, leafName?_eq here]
    by_cases hnone : node.children.isEmpty = true
    · -- nothing lies below a leaf
      rw [List.isEmpty_iff.1 hnone] at children
      cases children
      simp [hnone, ihrest]
    · simp [hnone, ihchildren, ihrest]

/-- The leaves of a tree are those of its order, if the order has no more nodes
    than the tree. -/
theorem leaves_eq (h : t.Preorder [0] order) (hlength : order.length = t.nodes.length) :
    t.leaves = order.filterMap t.leafName? := by
  have hvisits := h.leavesFrom_eq 0 []
  unfold leaves
  rw [← hlength]
  rw [Nat.add_zero, List.append_nil, leavesFrom, List.append_nil] at hvisits
  exact hvisits

end Preorder

end Predictive.DerivationTree
