import Mathlib.Data.List.Nodup
import Predictive.Proofs.DerivationTree.Preorder

/-! # How a tree grows

    What one step of a growing tree can be (`Growth.step_eq_ok_iff`), what it
    keeps (`Growth.Ready`) and what it leaves alone (`Growth.Grows`). A step
    takes the first node that waits. From then on the node stays as it is, and
    what lies below it comes before the other nodes that wait.

    So the nodes that wait, each with what grows below it, are in pre-order the
    waiting and the new nodes, once each (`preorder_of_grow`). This holds for any
    sequence of steps, whether a machine makes it or not.
-/

namespace Predictive.DerivationTree

variable {g : Grammar} {r : Rule} {t t' : Growth} {action : Action} {steps : List Step}
variable {i node : Nat} {waiting : List Nat}

namespace Growth

/-! ### One step -/

/-- A step takes the first node that waits. It leaves it as it is, or lets its
    children grow by a rule. -/
theorem step_eq_ok_iff : t.step g action = .ok t' ↔
    ∃ node waiting, t.pending = node :: waiting ∧
      ((∃ x, action = .advance x ∧ t' = { t with pending := waiting }) ∨
        ∃ i r, action = .expand i ∧ g.rules[i]? = some r ∧
          t' = expand g r node { t with pending := waiting }) := by
  unfold step
  cases hpending : t.pending with
  | nil => simp
  | cons node waiting =>
    cases action with
    | advance x => simp [eq_comm]
    | expand i => cases hrule : g.rules[i]? <;> simp [hrule, eq_comm]

theorem length_expand :
    (expand g r node t).nodes.length = t.nodes.length + r.shown.length := by
  simp [expand, Grammar.names]

theorem getElem?_expand_of_ne (hlt : i < t.nodes.length) (hne : i ≠ node) :
    (expand g r node t).nodes[i]? = t.nodes[i]? := by
  unfold expand
  rw [List.getElem?_append_left (by rwa [List.length_modify]), List.getElem?_modify_ne _ _ hne.symm]

theorem getElem?_expand_self {n : Node} (h : t.nodes[node]? = some n) :
    (expand g r node t).nodes[node]? =
      some { n with children := List.range' t.nodes.length r.shown.length } := by
  have hlt : node < t.nodes.length := (List.getElem?_eq_some_iff.1 h).1
  unfold expand
  rw [List.getElem?_append_left (by rwa [List.length_modify]), List.getElem?_modify_eq, h]
  rfl

/-- A node that grows keeps its name. -/
theorem map_symbol_expand (hlt : i < t.nodes.length) :
    ((expand g r node t).nodes[i]?).map Node.symbol = (t.nodes[i]?).map Node.symbol := by
  by_cases hi : i = node
  · subst hi
    have hnode : t.nodes[i]? = some t.nodes[i] := List.getElem?_eq_getElem hlt
    rw [getElem?_expand_self hnode, hnode]
    rfl
  · rw [getElem?_expand_of_ne hlt hi]

/-- The new nodes have the names that the rule shows, and no children. -/
theorem map_getElem?_expand_new (g : Grammar) (r : Rule) (node : Nat) (t : Growth) :
    (List.range' t.nodes.length r.shown.length).map ((expand g r node t).nodes[·]?) =
      (g.names r.shown).map fun name => some ⟨name, []⟩ := by
  apply List.ext_getElem?
  intro k
  rw [List.getElem?_map, List.getElem?_map, Grammar.names, List.getElem?_map]
  rcases Nat.lt_or_ge k r.shown.length with hlt | hge
  · have hnew : t.nodes.length + k < (expand g r node t).nodes.length := by
      rw [length_expand]
      omega
    simp [expand, Grammar.names, hlt]
  · rw [List.getElem?_eq_none (by simpa using hge), List.getElem?_eq_none hge]
    rfl

theorem expand_new {i : Nat} (h : i ∈ List.range' t.nodes.length r.shown.length) :
    ∃ name, (expand g r node t).nodes[i]? = some ⟨name, []⟩ := by
  have hmem := List.mem_map_of_mem (f := fun j => (expand g r node t).nodes[j]?) h
  rw [map_getElem?_expand_new g r node t] at hmem
  obtain ⟨name, -, hname⟩ := List.mem_map.1 hmem
  exact ⟨name, hname.symm⟩

/-- The rule that vanishes gives one leaf, `ε`. -/
theorem getElem?_expand_epsilon (h : r.right = []) :
    (expand g r node t).nodes[t.nodes.length]? = some ⟨g.name Symbol.epsilon, []⟩ := by
  have hshown : r.shown = [Symbol.epsilon] := by
    unfold Rule.shown
    rw [h]
    rfl
  have hnew := map_getElem?_expand_new g r node t
  rw [hshown] at hnew
  exact (List.cons.inj hnew).1

/-- The child of a rule that vanishes. It does not wait. -/
def vanished (r : Rule) (t : Growth) : List Nat :=
  if r.right.isEmpty then [t.nodes.length] else []

/-- The children and what waited before are the child that does not wait and
    what waits now. -/
theorem children_append (g : Grammar) (r : Rule) (node : Nat) (t : Growth) :
    List.range' t.nodes.length r.shown.length ++ t.pending =
      vanished r t ++ (expand g r node t).pending := by
  unfold vanished expand Rule.shown
  by_cases hr : r.right.isEmpty = true
  · simp [hr]
  · simp [hr]

/-! ### What a step keeps -/

/-- The nodes that wait are different, and nothing has grown below them. -/
structure Ready (t : Growth) : Prop where
  nodup : t.pending.Nodup
  fresh : ∀ i ∈ t.pending, ∃ name, t.nodes[i]? = some ⟨name, []⟩

theorem ready_root (name : String) : (root name).Ready where
  nodup := List.nodup_singleton 0
  fresh := by
    intro i hi
    rw [List.mem_singleton.1 hi]
    exact ⟨name, rfl⟩

namespace Ready

theorem lt_length (h : t.Ready) (hi : i ∈ t.pending) : i < t.nodes.length := by
  obtain ⟨name, hnode⟩ := h.fresh i hi
  exact (List.getElem?_eq_some_iff.1 hnode).1

theorem advance (h : t.Ready) (hpending : t.pending = node :: waiting) :
    Ready { t with pending := waiting } where
  nodup := by
    have hnodup := h.nodup
    rw [hpending] at hnodup
    exact (List.nodup_cons.1 hnodup).2
  fresh := by
    intro i hi
    apply h.fresh
    rw [hpending]
    exact List.mem_cons_of_mem _ hi

theorem not_mem_waiting (h : t.Ready) (hpending : t.pending = node :: waiting) :
    node ∉ waiting := by
  have hnodup := h.nodup
  rw [hpending] at hnodup
  exact (List.nodup_cons.1 hnodup).1

/-- The new nodes are beyond those that waited. -/
theorem expand (h : t.Ready) (hnode : node ∉ t.pending) : (expand g r node t).Ready := by
  have hchildren : ∀ i, i ∈ (if r.right.isEmpty then [] else
      List.range' t.nodes.length r.shown.length) →
        i ∈ List.range' t.nodes.length r.shown.length := by
    intro i hi
    split at hi
    · cases hi
    · exact hi
  constructor
  · refine List.nodup_append.2 ⟨?_, h.nodup, ?_⟩
    · split
      · exact List.nodup_nil
      · exact List.nodup_range'
    · -- a child has a number that no node had before
      intro i hi j hj heq
      have hge := (List.mem_range'_1.1 (hchildren i hi)).1
      have hlt := h.lt_length hj
      omega
  · intro i hi
    rcases List.mem_append.1 hi with hi | hi
    · exact expand_new (hchildren i hi)
    · rw [getElem?_expand_of_ne (h.lt_length hi) (ne_of_mem_of_not_mem hi hnode)]
      exact h.fresh i hi

theorem step (h : t.Ready) (hstep : t.step g action = .ok t') : t'.Ready := by
  obtain ⟨node, waiting, hpending, ⟨x, -, rfl⟩ | ⟨i, r, -, -, rfl⟩⟩ := step_eq_ok_iff.1 hstep
  · exact h.advance hpending
  · exact (h.advance hpending).expand (h.not_mem_waiting hpending)

end Ready

/-! ### What steps leave alone -/

/-- `t` can grow to `t'`. Only nodes that wait change, they keep their names, and
    what waits later has waited already or is new. -/
structure Grows (t t' : Growth) : Prop where
  length_le : t.nodes.length ≤ t'.nodes.length
  kept : ∀ i < t.nodes.length, i ∉ t.pending → t'.nodes[i]? = t.nodes[i]?
  symbol_eq : ∀ i < t.nodes.length,
    (t'.nodes[i]?).map Node.symbol = (t.nodes[i]?).map Node.symbol
  waits : ∀ i ∈ t'.pending, i ∈ t.pending ∨ t.nodes.length ≤ i

namespace Grows

theorem refl (t : Growth) : t.Grows t :=
  ⟨Nat.le_refl _, fun _ _ _ => rfl, fun _ _ => rfl, fun _ hi => .inl hi⟩

theorem trans {t'' : Growth} (h : t.Grows t') (k : t'.Grows t'') : t.Grows t'' where
  length_le := Nat.le_trans h.length_le k.length_le
  kept := by
    intro i hlt hi
    -- a node that does not wait in `t` never waits again
    have hi' : i ∉ t'.pending := by
      intro hmem
      rcases h.waits i hmem with hmem | hge
      · exact hi hmem
      · omega
    rw [k.kept i (Nat.lt_of_lt_of_le hlt h.length_le) hi', h.kept i hlt hi]
  symbol_eq := by
    intro i hlt
    rw [k.symbol_eq i (Nat.lt_of_lt_of_le hlt h.length_le), h.symbol_eq i hlt]
  waits := by
    intro i hi
    rcases k.waits i hi with hi | hge
    · exact h.waits i hi
    · exact .inr (Nat.le_trans h.length_le hge)

theorem of_step (h : t.step g action = .ok t') : t.Grows t' := by
  obtain ⟨node, waiting, hpending, ⟨x, -, rfl⟩ | ⟨i, r, -, -, rfl⟩⟩ := step_eq_ok_iff.1 h
  · refine ⟨Nat.le_refl _, fun _ _ _ => rfl, fun _ _ => rfl, ?_⟩
    intro i hi
    rw [hpending]
    exact .inl (List.mem_cons_of_mem _ hi)
  · refine ⟨?_, ?_, ?_, ?_⟩
    · rw [length_expand]
      exact Nat.le_add_right _ _
    · intro i hlt hi
      rw [hpending] at hi
      exact getElem?_expand_of_ne hlt (List.ne_of_not_mem_cons hi)
    · intro i hlt
      exact map_symbol_expand hlt
    · intro i hi
      rcases List.mem_append.1 hi with hi | hi
      · split at hi
        · cases hi
        · exact .inr (List.mem_range'_1.1 hi).1
      · rw [hpending]
        exact .inl (List.mem_cons_of_mem _ hi)

end Grows

/-! ### What becomes of a node -/

theorem mem_pending (hpending : t.pending = node :: waiting) : node ∈ t.pending := by
  rw [hpending]
  exact List.mem_cons_self

namespace Ready

variable (h : t.Ready) (hpending : t.pending = node :: waiting)

include h hpending

/-- A node that a step takes and leaves is a leaf for good. -/
theorem taken_of_advance {name : String} (here : t.nodes[node]? = some ⟨name, []⟩)
    (hgrows : Grows { t with pending := waiting } t') :
    t'.nodes[node]? = some ⟨name, []⟩ := by
  have hlt := h.lt_length (mem_pending hpending)
  rw [hgrows.kept node hlt (h.not_mem_waiting hpending)]
  exact here

/-- A node that a step expands has these children for good. -/
theorem taken_of_expand {name : String} (here : t.nodes[node]? = some ⟨name, []⟩)
    (hgrows : Grows (Growth.expand g r node { t with pending := waiting }) t') :
    t'.nodes[node]? = some ⟨name, List.range' t.nodes.length r.shown.length⟩ := by
  have hlt := h.lt_length (mem_pending hpending)
  rw [hgrows.kept node]
  · exact getElem?_expand_self here
  · rw [length_expand]
    exact Nat.lt_add_right _ hlt
  · -- it is neither new nor still waiting
    intro hi
    rcases List.mem_append.1 hi with hi | hi
    · split at hi
      · cases hi
      · exact Nat.not_le_of_lt hlt (List.mem_range'_1.1 hi).1
    · exact h.not_mem_waiting hpending hi

/-- The leaf of a rule that vanishes is a leaf for good. -/
theorem vanished_of_expand
    (hgrows : Grows (Growth.expand g r node { t with pending := waiting }) t') :
    ∀ i ∈ vanished r t, t'.nodes[i]? = some ⟨g.name Symbol.epsilon, []⟩ := by
  intro i hi
  unfold vanished at hi
  split at hi
  · next hempty =>
    have hr : r.right = [] := List.isEmpty_iff.1 hempty
    have hnew : (Growth.expand g r node { t with pending := waiting }).nodes[t.nodes.length]? =
        some ⟨g.name Symbol.epsilon, []⟩ := getElem?_expand_epsilon hr
    obtain rfl := List.mem_singleton.1 hi
    rw [hgrows.kept t.nodes.length]
    · exact hnew
    · exact (List.getElem?_eq_some_iff.1 hnew).1
    · -- its number is new, and no child of this rule waits
      intro hi
      rcases List.mem_append.1 hi with hi | hi
      · rw [hr] at hi
        cases hi
      · exact Nat.lt_irrefl _ ((h.advance hpending).lt_length hi)
  · cases hi

/-- What grows below a node that is left comes before what waits: nothing. -/
theorem preorder_of_advance {order : List Nat} (hgrows : Grows { t with pending := waiting } t') :
    Preorder ⟨t'.nodes⟩ t.pending order ↔
      ∃ after, order = node :: after ∧ Preorder ⟨t'.nodes⟩ waiting after := by
  obtain ⟨name, hfresh⟩ := h.fresh node (mem_pending hpending)
  have here := h.taken_of_advance hpending hfresh hgrows
  rw [hpending]
  constructor
  · intro horder
    exact horder.exists_cons here
  · rintro ⟨after, rfl, hafter⟩
    exact .of_children here hafter

/-- What grows below a node that is expanded comes before what waits: its
    children, and what grows below them. -/
theorem preorder_of_expand {order : List Nat}
    (hgrows : Grows (Growth.expand g r node { t with pending := waiting }) t') :
    Preorder ⟨t'.nodes⟩ t.pending order ↔
      ∃ after, order = node :: (vanished r t ++ after) ∧
        Preorder ⟨t'.nodes⟩ (Growth.expand g r node { t with pending := waiting }).pending
          after := by
  obtain ⟨name, hfresh⟩ := h.fresh node (mem_pending hpending)
  have here := h.taken_of_expand hpending hfresh hgrows
  have hleaves : ∀ i ∈ vanished r t, ∃ name, t'.nodes[i]? = some ⟨name, []⟩ :=
    fun i hi => ⟨_, h.vanished_of_expand hpending hgrows i hi⟩
  have hchildren := children_append g r node { t with pending := waiting }
  rw [hpending]
  constructor
  · -- the order goes on with all children; the one that does not wait is a leaf
    intro horder
    obtain ⟨below, rfl, hbelow⟩ := horder.exists_cons here
    obtain ⟨before, after, rfl, hbefore, hafter⟩ := (hchildren ▸ hbelow).exists_append
    rw [hbefore.eq_of_leaves hleaves]
    exact ⟨after, rfl, hafter⟩
  · rintro ⟨after, rfl, hafter⟩
    apply Preorder.of_children here
    exact hchildren ▸ (Preorder.of_leaves hleaves).append hafter

end Ready
end Growth

/-! ### All steps -/

open Growth

theorem grow_cons_eq_ok_iff {s : Step} : grow g t (s :: steps) = .ok t' ↔
    ∃ u, t.step g s.action = .ok u ∧ grow g u steps = .ok t' := by
  show (t.step g s.action).bind (fun u => grow g u steps) = _ ↔ _
  cases t.step g s.action with
  | error => simp [Except.bind]
  | ok u => simp [Except.bind]

theorem grows_of_grow (h : grow g t steps = .ok t') : t.Grows t' := by
  induction steps generalizing t with
  | nil =>
    obtain rfl : t = t' := Except.ok.inj h
    exact .refl t
  | cons s steps ih =>
    obtain ⟨u, hstep, hrest⟩ := grow_cons_eq_ok_iff.1 h
    exact (Grows.of_step hstep).trans (ih hrest)

/-- The children of a node are the first of the new nodes. -/
theorem perm_of_expand {n : Nat} {after : List Nat} (hle : t.nodes.length + r.shown.length ≤ n)
    (h : after.Perm ((Growth.expand g r node t).pending ++
      List.range' (t.nodes.length + r.shown.length) (n - (t.nodes.length + r.shown.length)))) :
    (vanished r t ++ after).Perm
      (t.pending ++ List.range' t.nodes.length (n - t.nodes.length)) := by
  have hsplit : n - t.nodes.length =
      r.shown.length + (n - (t.nodes.length + r.shown.length)) := by
    omega
  rw [hsplit, ← List.range'_append_1]
  refine (h.append_left _).trans ?_
  rw [← List.append_assoc, ← children_append g r node t, List.append_assoc]
  exact List.perm_append_comm_assoc _ _ _

/-- The nodes that wait, each with what grows below it, are in pre-order the
    nodes that wait and the new ones, once each. -/
theorem preorder_of_grow (h : t.Ready) (hgrow : grow g t steps = .ok t') :
    ∃ order, Preorder ⟨t'.nodes⟩ t.pending order ∧
      order.Perm (t.pending ++
        List.range' t.nodes.length (t'.nodes.length - t.nodes.length)) := by
  -- from the last step back: the tree is the one at the end throughout
  induction steps generalizing t with
  | nil =>
    obtain rfl : t = t' := Except.ok.inj hgrow
    refine ⟨t.pending, .of_leaves h.fresh, ?_⟩
    rw [Nat.sub_self, List.range'_zero, List.append_nil]
  | cons s steps ih =>
    obtain ⟨u, hstep, hrest⟩ := grow_cons_eq_ok_iff.1 hgrow
    have hgrows := grows_of_grow hrest
    obtain ⟨after, hafter, hperm⟩ := ih (h.step hstep) hrest
    obtain ⟨node, waiting, hpending, ⟨x, -, rfl⟩ | ⟨i, r, -, -, rfl⟩⟩ := step_eq_ok_iff.1 hstep
    · refine ⟨node :: after, (h.preorder_of_advance hpending hgrows).2 ⟨after, rfl, hafter⟩, ?_⟩
      rw [hpending]
      exact hperm.cons node
    · refine ⟨node :: (vanished r t ++ after),
        (h.preorder_of_expand hpending hgrows).2 ⟨after, rfl, hafter⟩, ?_⟩
      have hle := hgrows.length_le
      rw [length_expand] at hle hperm
      rw [hpending]
      exact (perm_of_expand hle hperm).cons node

/-- What has grown from a root is a tree: in pre-order from the root each node
    comes once. -/
theorem preorder_of_grow_root {name : String} (hgrow : grow g (.root name) steps = .ok t') :
    ∃ order, Preorder ⟨t'.nodes⟩ [0] order ∧ order.Perm (List.range t'.nodes.length) := by
  have hgrows := grows_of_grow hgrow
  obtain ⟨order, horder, hperm⟩ := preorder_of_grow (Growth.ready_root _) hgrow
  -- the root and the new nodes are all nodes
  have hpositive : 1 ≤ t'.nodes.length := hgrows.length_le
  have hrange : [0] ++ List.range' 1 (t'.nodes.length - 1) = List.range t'.nodes.length := by
    rw [List.range_eq_range', show [0] = List.range' 0 1 from rfl, List.range'_append_1,
      Nat.add_sub_cancel' hpositive]
  exact ⟨order, horder, hrange ▸ hperm⟩

/-- An accepted trace has the tree that grows by its steps from the start
    symbol. -/
theorem ofTrace_eq_ok {trace : Trace} {start : Symbol} (haccepted : trace.accepted = true)
    (hstart : g.start? = some start)
    (hgrow : grow g (.root (g.name start)) trace.steps = .ok t') :
    ofTrace g trace = .ok ⟨t'.nodes⟩ := by
  unfold ofTrace
  rw [if_pos haccepted, hstart]
  simp only [hgrow]
  rfl

theorem exists_grow_of_ofTrace {trace : Trace} {tree : DerivationTree}
    (h : ofTrace g trace = .ok tree) :
    ∃ start t', grow g (.root (g.name start)) trace.steps = .ok t' ∧ tree = ⟨t'.nodes⟩ := by
  unfold ofTrace at h
  split at h
  · split at h
    · cases h
    · next start _ =>
      cases hgrow : grow g (.root (g.name start)) trace.steps with
      | error e =>
        rw [hgrow] at h
        cases h
      | ok t' =>
        rw [hgrow] at h
        cases h
        exact ⟨start, t', hgrow, rfl⟩
  · cases h

end Predictive.DerivationTree
