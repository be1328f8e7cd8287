import Mathlib.Algebra.GroupWithZero.Nat
import Predictive.Proofs.Checked.Machine

/-! # What any trace is replayed to

    A trace need not come from a parse, nor from the grammar that it is replayed
    with. Whatever its steps are, what they leave behind is a tree
    (`DerivationTree.Rooted`): an expansion gives its children to a node that has
    none, and they are new, so no node gets a second parent and numbers grow
    downwards.

    A replay stops at a step for which no node waits. Each step takes one node,
    and an expansion brings as many as its right side is long, so where this
    happens can be counted from the steps (`Grammar.Starves`).

    Main result: `DerivationTree.ofTrace_rooted_or_starved`.
-/

namespace Predictive

/-- The rules of the expansions, as far as the grammar has them. -/
def Grammar.applied (g : Grammar) (steps : List Step) : List Rule :=
  (expansions steps).filterMap (g.rules[·]?)

/-- Some step comes when as many nodes have been taken as there were: one at the
    start and one for each symbol on the right sides so far. The rules before it
    are rules of the grammar. -/
def Grammar.Starves (g : Grammar) (steps : List Step) : Prop :=
  ∃ before s after, steps = before ++ s :: after ∧
    (∀ i ∈ expansions before, i < g.rules.length) ∧
    before.length = 1 + ((g.applied before).map fun r => r.right.length).sum

namespace DerivationTree

open Growth

variable {g : Grammar} {r : Rule} {t t' : Growth} {action : Action} {steps : List Step}
variable {s : Step} {i node : Nat} {e : TreeError}

/-! ### Parents -/

/-- The children of a node; there are none where there is no node. -/
def childrenOf (t : DerivationTree) (i : Nat) : List Nat :=
  ((t.nodes[i]?).map Node.children).getD []

/-- Node 0 is the root of a tree: it is no child, and every other node is a child
    of one node, in front of it. Children are nodes, numbered one after the
    other. -/
structure Rooted (t : DerivationTree) : Prop where
  positive : 0 < t.nodes.length
  root : ∀ i, 0 ∉ t.childrenOf i
  parent : ∀ j, 0 < j → j < t.nodes.length → ∃ i < j, ∀ k, j ∈ t.childrenOf k ↔ k = i
  consecutive : ∀ i, ∃ first, t.childrenOf i = List.range' first (t.childrenOf i).length
  child_lt : ∀ i, ∀ j ∈ t.childrenOf i, j < t.nodes.length

theorem childrenOf_expand (hnode : node < t.nodes.length) (i : Nat) :
    childrenOf ⟨(expand g r node t).nodes⟩ i =
      if i = node then List.range' t.nodes.length r.shown.length else childrenOf ⟨t.nodes⟩ i := by
  unfold childrenOf
  by_cases hi : i = node
  · subst hi
    have here : t.nodes[i]? = some t.nodes[i] := List.getElem?_eq_getElem hnode
    rw [if_pos rfl, getElem?_expand_self here]
    rfl
  · rw [if_neg hi]
    rcases Nat.lt_or_ge i t.nodes.length with hlt | hge
    · rw [getElem?_expand_of_ne hlt hi]
    · -- the new nodes have no children
      rw [List.getElem?_eq_none hge]
      by_cases hnew : i < t.nodes.length + r.shown.length
      · obtain ⟨name, here⟩ : ∃ name, (expand g r node t).nodes[i]? = some ⟨name, []⟩ :=
          expand_new (List.mem_range'_1.2 ⟨hge, hnew⟩)
        rw [here]
        rfl
      · rw [List.getElem?_eq_none (by rw [length_expand]; omega)]

theorem childrenOf_root (name : String) (i : Nat) :
    childrenOf ⟨(Growth.root name).nodes⟩ i = [] := by
  cases i <;> rfl

theorem rooted_root (name : String) : Rooted ⟨(Growth.root name).nodes⟩ where
  positive := Nat.one_pos
  root := by
    intro i
    rw [childrenOf_root]
    exact List.not_mem_nil
  parent := by
    intro j hpositive hlt
    have hone : j < 1 := hlt
    omega
  consecutive := by
    intro i
    rw [childrenOf_root]
    exact ⟨0, rfl⟩
  child_lt := by
    intro i j hj
    rw [childrenOf_root] at hj
    cases hj

namespace Rooted

variable (h : Rooted ⟨t.nodes⟩) (hnode : node < t.nodes.length)
variable (hnone : childrenOf ⟨t.nodes⟩ node = [])

include h hnode hnone

/-- Old nodes keep their parents, and the parent of the new ones is `node`. -/
theorem exists_parent {j : Nat} (hj : 0 < j) (hlt : j < t.nodes.length + r.shown.length) :
    ∃ i < j, ∀ k, j ∈ childrenOf ⟨(Growth.expand g r node t).nodes⟩ k ↔ k = i := by
  by_cases hold : j < t.nodes.length
  · obtain ⟨i, hij, hparent⟩ := h.parent j hj hold
    -- the parent had children before
    have hne : i ≠ node := by
      rintro rfl
      have hmem := (hparent i).2 rfl
      rw [hnone] at hmem
      cases hmem
    refine ⟨i, hij, fun k => ?_⟩
    rw [childrenOf_expand hnode]
    by_cases hk : k = node
    · rw [if_pos hk, List.mem_range'_1]
      omega
    · rw [if_neg hk]
      exact hparent k
  · refine ⟨node, by omega, fun k => ?_⟩
    rw [childrenOf_expand hnode]
    by_cases hk : k = node
    · rw [if_pos hk, List.mem_range'_1]
      omega
    · rw [if_neg hk]
      exact iff_of_false (fun hmem => hold (h.child_lt k j hmem)) hk

/-- A node without children can be given new nodes as its children. -/
theorem expand : Rooted ⟨(Growth.expand g r node t).nodes⟩ where
  positive := by
    show 0 < (Growth.expand g r node t).nodes.length
    rw [length_expand]
    omega
  root := by
    intro i hi
    rw [childrenOf_expand hnode] at hi
    split at hi
    · have hge := (List.mem_range'_1.1 hi).1
      omega
    · exact h.root i hi
  parent := by
    intro j hj hlt
    have hlt' : j < (Growth.expand g r node t).nodes.length := hlt
    rw [length_expand] at hlt'
    exact h.exists_parent hnode hnone hj hlt'
  consecutive := by
    intro i
    rw [childrenOf_expand hnode]
    split
    · exact ⟨t.nodes.length, by rw [List.length_range']⟩
    · exact h.consecutive i
  child_lt := by
    intro i j hj
    show j < (Growth.expand g r node t).nodes.length
    rw [childrenOf_expand hnode] at hj
    rw [length_expand]
    split at hj
    · exact (List.mem_range'_1.1 hj).2
    · exact Nat.lt_add_right _ (h.child_lt i j hj)

end Rooted

theorem Rooted.step (h : Rooted ⟨t.nodes⟩) (hready : t.Ready) (hstep : t.step g action = .ok t') :
    Rooted ⟨t'.nodes⟩ := by
  obtain ⟨node, waiting, hpending, ⟨x, -, rfl⟩ | ⟨i, r, -, -, rfl⟩⟩ := step_eq_ok_iff.1 hstep
  · exact h
  · have hwaits := mem_pending hpending
    have hnone : childrenOf ⟨t.nodes⟩ node = [] := by
      obtain ⟨name, here⟩ := hready.fresh node hwaits
      unfold childrenOf
      rw [here]
      rfl
    exact Rooted.expand (t := { t with pending := waiting }) h (hready.lt_length hwaits) hnone

/-- Any steps lead from a tree to a tree. -/
theorem Rooted.grow (h : Rooted ⟨t.nodes⟩) (hready : t.Ready)
    (hgrow : DerivationTree.grow g t steps = .ok t') : Rooted ⟨t'.nodes⟩ := by
  induction steps generalizing t with
  | nil =>
    obtain rfl : t = t' := Except.ok.inj hgrow
    exact h
  | cons s steps ih =>
    obtain ⟨u, hstep, hrest⟩ := grow_cons_eq_ok_iff.1 hgrow
    exact ih (h.step hready hstep) (hready.step hstep) hrest

/-! ### Counting -/

/-- The rules of the steps are rules of the grammar. Each symbol that they show is
    a new node, each symbol on their right sides waits once, and each step takes
    a node that waits. -/
structure Accounts (g : Grammar) (steps : List Step) (t t' : Growth) : Prop where
  found : ∀ i ∈ expansions steps, i < g.rules.length
  nodes : t'.nodes.length =
    t.nodes.length + ((g.applied steps).map fun r => r.shown.length).sum
  pending : t'.pending.length + steps.length =
    t.pending.length + ((g.applied steps).map fun r => r.right.length).sum

theorem length_pending_expand :
    (expand g r node t).pending.length = r.right.length + t.pending.length := by
  unfold expand Rule.shown
  cases r.right <;> simp

theorem accounts_of_grow (h : grow g t steps = .ok t') : Accounts g steps t t' := by
  induction steps generalizing t with
  | nil =>
    obtain rfl : t = t' := Except.ok.inj h
    exact ⟨by simp [expansions], rfl, rfl⟩
  | cons s steps ih =>
    obtain ⟨u, hstep, hrest⟩ := grow_cons_eq_ok_iff.1 h
    obtain ⟨hfound, hnodes, hpending⟩ := ih hrest
    obtain ⟨node, waiting, hwaits, ⟨x, haction, rfl⟩ | ⟨i, r, haction, rule, rfl⟩⟩ :=
      step_eq_ok_iff.1 hstep
    · have hexpansions : expansions (s :: steps) = expansions steps := by
        simp [expansions, haction, Action.rule?]
      have happlied : g.applied (s :: steps) = g.applied steps := by
        unfold Grammar.applied
        rw [hexpansions]
      refine ⟨hexpansions ▸ hfound, happlied ▸ hnodes, ?_⟩
      rw [happlied, hwaits, List.length_cons, List.length_cons]
      show _ = waiting.length + 1 + _
      have : t'.pending.length + steps.length = waiting.length + _ := hpending
      omega
    · have hexpansions : expansions (s :: steps) = i :: expansions steps := by
        simp [expansions, haction, Action.rule?]
      have happlied : g.applied (s :: steps) = r :: g.applied steps := by
        unfold Grammar.applied
        rw [hexpansions, List.filterMap_cons_some rule]
      rw [length_expand] at hnodes
      rw [length_pending_expand] at hpending
      simp only at hnodes hpending
      refine ⟨?_, ?_, ?_⟩
      · rw [hexpansions, List.forall_mem_cons]
        exact ⟨(List.getElem?_eq_some_iff.1 rule).1, hfound⟩
      · rw [happlied, List.map_cons, List.sum_cons]
        omega
      · rw [happlied, hwaits, List.map_cons, List.sum_cons, List.length_cons, List.length_cons]
        omega

/-! ### Where a replay stops -/

/-- A step fails if no node waits, or if one waits and the rule does not exist. -/
theorem step_eq_error_iff : t.step g action = .error e ↔
    (t.pending = [] ∧ e = .nothingPending) ∨
      t.pending ≠ [] ∧ ∃ i, action = .expand i ∧ g.rules.length ≤ i ∧
        e = .unknownRule (.index g.rules.length i) := by
  unfold Growth.step
  cases t.pending with
  | nil => simp [eq_comm]
  | cons node waiting =>
    cases action with
    | advance x => simp
    | expand i =>
      rcases Nat.lt_or_ge i g.rules.length with hlt | hge
      · simp [hlt]
      · simp [hge, eq_comm]

theorem grow_append (before after : List Step) :
    grow g t (before ++ after) = (grow g t before).bind fun u => grow g u after := by
  induction before generalizing t with
  | nil => rfl
  | cons s before ih =>
    show (t.step g s.action).bind (fun u => grow g u (before ++ after)) =
      ((t.step g s.action).bind fun u => grow g u before).bind fun u => grow g u after
    cases t.step g s.action with
    | error e => rfl
    | ok u => exact ih

/-- A replay ends with the error of a step. -/
theorem grow_eq_error_of_step {u : Growth} {before : List Step} (hbefore : grow g t before = .ok u)
    (hfails : u.step g s.action = .error e) (after : List Step) :
    grow g t (before ++ s :: after) = .error e := by
  rw [grow_append, hbefore]
  show (u.step g s.action).bind _ = _
  rw [hfails]
  rfl

/-- An error comes from the first step that fails. -/
theorem exists_step_of_grow_eq_error (h : grow g t steps = .error e) :
    ∃ before s after u, steps = before ++ s :: after ∧ grow g t before = .ok u ∧
      u.step g s.action = .error e := by
  induction steps generalizing t with
  | nil => cases h
  | cons s steps ih =>
    have hfirst : (t.step g s.action).bind (fun u => grow g u steps) = .error e := h
    cases hstep : t.step g s.action with
    | error e' =>
      rw [hstep] at hfirst
      obtain rfl : e' = e := Except.error.inj hfirst
      exact ⟨[], s, steps, t, rfl, rfl, hstep⟩
    | ok v =>
      rw [hstep] at hfirst
      obtain ⟨before, s', after, u, rfl, hbefore, hfails⟩ := ih hfirst
      exact ⟨s :: before, s', after, u, rfl, grow_cons_eq_ok_iff.2 ⟨v, hstep, hbefore⟩, hfails⟩

theorem mem_expansions_append {before after : List Step} (h : s.action = .expand i) :
    i ∈ expansions (before ++ s :: after) := by
  simp [expansions, h, Action.rule?]

/-- A step finds no node just where the count says so. -/
theorem grow_root_eq_nothingPending_iff (name : String) :
    grow g (.root name) steps = .error .nothingPending ↔ g.Starves steps := by
  constructor
  · intro h
    obtain ⟨before, s, after, u, rfl, hbefore, hfails⟩ := exists_step_of_grow_eq_error h
    have hcount := accounts_of_grow hbefore
    have hempty : u.pending = [] := by
      rcases step_eq_error_iff.1 hfails with ⟨hempty, -⟩ | ⟨-, i, -, -, herror⟩
      · exact hempty
      · cases herror
    have hpending := hcount.pending
    rw [hempty] at hpending
    exact ⟨before, s, after, rfl, hcount.found, (Nat.zero_add _).symm.trans hpending⟩
  · rintro ⟨before, s, after, rfl, hfound, hlength⟩
    cases hbefore : grow g (.root name) before with
    | ok u =>
      have hpending : u.pending.length + before.length = 1 + _ := (accounts_of_grow hbefore).pending
      have hempty : u.pending = [] := List.eq_nil_of_length_eq_zero (by omega)
      exact grow_eq_error_of_step hbefore (step_eq_error_iff.2 (.inl ⟨hempty, rfl⟩)) after
    | error e =>
      -- then an earlier step has found no node, since its rule would be found
      obtain ⟨first, s', rest, u, rfl, hfirst, hfails⟩ := exists_step_of_grow_eq_error hbefore
      rcases step_eq_error_iff.1 hfails with ⟨-, rfl⟩ | ⟨-, i, haction, hge, -⟩
      · rw [grow_append, hbefore]
        rfl
      · exact absurd (hfound i (mem_expansions_append haction)) (Nat.not_lt.2 hge)

/-! ### Trees of traces -/

/-- What is given for a trace: its tree, no tree, or the fault of a rule that does
    not exist. -/
def answer {α : Type} : Except TreeError α → Except Fault (Option α)
  | .ok a => .ok (some a)
  | .error (.unknownRule fault) => .error fault
  | .error _ => .ok none

theorem ofTrace_of_start {t : Trace} {start : Symbol} (haccepted : t.accepted = true)
    (hstart : g.start? = some start) : ofTrace g t =
      (grow g (.root (g.name start)) t.steps).map fun grown => ⟨grown.nodes⟩ := by
  unfold ofTrace
  rw [if_pos haccepted, hstart]

end DerivationTree

namespace Checked

open DerivationTree

variable {g : Grammar} {t : Growth} {action : Action} {steps : List Step}

theorem growStep_eq_answer (hg : g.WellFormed) (hready : t.Ready) :
    growStep g t action = answer (t.step g action) := by
  cases hstep : t.step g action with
  | ok u => exact growStep_eq hg hready hstep
  | error e =>
    unfold growStep
    rcases step_eq_error_iff.1 hstep with ⟨hempty, rfl⟩ | ⟨hwaits, i, rfl, hge, rfl⟩
    · rw [hempty]
      rfl
    · obtain ⟨node, waiting, hpending⟩ := List.exists_cons_of_ne_nil hwaits
      have hread : read g.rules i = .error (.index g.rules.length i) := by
        unfold read
        rw [List.getElem?_eq_none hge]
      rw [hpending]
      simp only
      rw [hread]
      rfl

theorem grow_eq_answer (hg : g.WellFormed) (hready : t.Ready) :
    grow g t steps = answer (DerivationTree.grow g t steps) := by
  induction steps generalizing t with
  | nil => rfl
  | cons s steps ih =>
    show _ = answer ((t.step g s.action).bind fun u => DerivationTree.grow g u steps)
    rw [grow, growStep_eq_answer hg hready]
    cases hstep : t.step g s.action with
    | error e => cases e <;> rfl
    | ok u => exact ih (hready.step hstep)

/-- With every look-up in its place any trace is replayed to the same. -/
theorem treeOf_eq_answer (hg : g.WellFormed) (trace : Trace) :
    treeOf g trace = answer (ofTrace g trace) := by
  by_cases haccepted : trace.accepted = true
  · cases hstart : g.start? with
    | none =>
      unfold treeOf ofTrace
      rw [if_pos haccepted, if_pos haccepted, hstart]
      rfl
    | some start =>
      have hlt : start < g.size := Grammar.lt_size_of_nonTerminal (hg.kind_start hstart)
      unfold treeOf
      rw [if_pos haccepted, hstart, ofTrace_of_start haccepted hstart]
      simp only
      rw [nameOf_eq hlt, ok_bind, grow_eq_answer hg (Growth.ready_root _)]
      cases DerivationTree.grow g (.root (g.name start)) trace.steps with
      | ok u => rfl
      | error e => cases e <;> rfl
  · unfold treeOf ofTrace
    rw [if_neg haccepted, if_neg haccepted]
    rfl

end Checked

namespace DerivationTree

variable {g : Grammar} {t : Trace} {tree : DerivationTree} {fault : Fault}

theorem rooted_of_ofTrace (h : ofTrace g t = .ok tree) : tree.Rooted := by
  obtain ⟨start, t', hgrow, rfl⟩ := exists_grow_of_ofTrace h
  exact (rooted_root _).grow (Growth.ready_root _) hgrow

/-- In pre-order each node comes once, and the leaves are those of this order. -/
theorem leaves_of_ofTrace (h : ofTrace g t = .ok tree) :
    ∃ order, tree.Preorder [0] order ∧ order.Perm (List.range tree.nodes.length) ∧
      Checked.leaves tree = .ok (some (order.filterMap tree.leafName?)) := by
  have hleaves := Checked.leaves_eq h
  obtain ⟨start, t', hgrow, rfl⟩ := exists_grow_of_ofTrace h
  obtain ⟨order, horder, hall⟩ := preorder_of_grow_root hgrow
  have hlength : order.length = t'.nodes.length := by
    rw [hall.length_eq, List.length_range]
  rw [horder.leaves_eq hlength] at hleaves
  exact ⟨order, horder, hall, hleaves⟩

/-- There is no tree just for a trace that is not accepted, for a grammar without
    a start symbol, and for steps that run out of nodes. -/
theorem answer_ofTrace_eq_none_iff : answer (ofTrace g t) = .ok none ↔
    t.accepted = false ∨ g.start? = none ∨ g.Starves t.steps := by
  cases haccepted : t.accepted with
  | false => simp [ofTrace, haccepted, answer]
  | true =>
    cases hstart : g.start? with
    | none => simp [ofTrace, haccepted, hstart, answer]
    | some start =>
      rw [ofTrace_of_start haccepted hstart,
        ← grow_root_eq_nothingPending_iff (g.name start)]
      cases hgrow : grow g (.root (g.name start)) t.steps with
      | ok u => simp [answer, Except.map]
      | error e =>
        obtain ⟨before, s, after, u, -, -, hfails⟩ := exists_step_of_grow_eq_error hgrow
        rcases step_eq_error_iff.1 hfails with ⟨-, rfl⟩ | ⟨-, i, -, -, rfl⟩
        · simp [answer, Except.map]
        · simp [answer, Except.map]

/-- The only fault is a rule that the grammar does not have. -/
theorem exists_rule_of_fault (h : answer (ofTrace g t) = .error fault) :
    ∃ i ∈ expansions t.steps, g.rules.length ≤ i ∧ fault = .index g.rules.length i := by
  unfold ofTrace at h
  split at h
  · split at h
    · cases h
    · next start _ =>
      cases hgrow : grow g (.root (g.name start)) t.steps with
      | ok u =>
        rw [hgrow] at h
        cases h
      | error e =>
        obtain ⟨before, s, after, u, hsteps, -, hfails⟩ := exists_step_of_grow_eq_error hgrow
        rw [hgrow] at h
        rcases step_eq_error_iff.1 hfails with ⟨-, rfl⟩ | ⟨-, i, haction, hge, rfl⟩
        · cases h
        · cases h
          exact ⟨i, hsteps ▸ mem_expansions_append haction, hge, rfl⟩
  · cases h

/-- Whatever trace is replayed with whatever grammar, what is given for it is a
    tree or nothing. A tree is rooted at node 0, all its expansions are by rules of
    the grammar, and it has one node and one more for each symbol that these show.
    Its leaves are found in as many visits as it has nodes: they are, in
    pre-order, the nodes without children, once each.

    Nothing is given just for a trace that is not accepted, for a grammar without
    a start symbol, and for steps that run out of nodes before they come to a rule
    that does not exist. Such a rule is the only fault that there can be.

    With every look-up in its place it is the same for a well-formed grammar. -/
theorem ofTrace_rooted_or_starved (g : Grammar) (t : Trace) :
    (∀ tree, ofTrace g t = .ok tree → tree.Rooted ∧
      (∀ i ∈ expansions t.steps, i < g.rules.length) ∧
      tree.nodes.length = 1 + ((g.applied t.steps).map fun r => r.shown.length).sum ∧
      ∃ order, tree.Preorder [0] order ∧ order.Perm (List.range tree.nodes.length) ∧
        Checked.leaves tree = .ok (some (order.filterMap tree.leafName?))) ∧
    (answer (ofTrace g t) = .ok none ↔
      t.accepted = false ∨ g.start? = none ∨ g.Starves t.steps) ∧
    (∀ fault, answer (ofTrace g t) = .error fault →
      ∃ i ∈ expansions t.steps, g.rules.length ≤ i ∧ fault = .index g.rules.length i) ∧
    (g.WellFormed → Checked.treeOf g t = answer (ofTrace g t)) := by
  refine ⟨?_, answer_ofTrace_eq_none_iff, fun _ => exists_rule_of_fault,
    fun hg => Checked.treeOf_eq_answer hg t⟩
  intro tree htree
  have hleaves := leaves_of_ofTrace htree
  have hrooted := rooted_of_ofTrace htree
  obtain ⟨start, t', hgrow, rfl⟩ := exists_grow_of_ofTrace htree
  have haccounts := accounts_of_grow hgrow
  exact ⟨hrooted, haccounts.found, haccounts.nodes, hleaves⟩

/-- With the rules of `S -> a S b |` any node can be expanded, here the `a` below
    the root by the rule that vanishes and then, since `S` is left, the `b` by the
    other rule. Once the root has vanished no node waits for another step, also
    if its rule does not exist; a first step by that rule is a fault. -/
theorem ofTrace_rooted_or_starved_of_replays :
    let g := (Reading.ofText "S -> a S b |").grammar
    let replay (actions : List Action) : Trace :=
      ⟨[], actions.map fun action => ⟨[], 0, action⟩, .finished .accepted⟩
    (∃ tree, ofTrace g (replay [.expand 0, .expand 1, .advance 2, .expand 0]) = .ok tree ∧
      tree.Rooted ∧ tree.nodes.length = 8) ∧
    g.Starves (replay [.expand 1, .expand 2]).steps ∧
    Checked.treeOf g (replay [.expand 1, .expand 2]) = .ok none ∧
    Checked.treeOf g (replay [.expand 2]) = .error (.index 2 2) := by
  intro g replay
  have hg : g.WellFormed := Grammar.wellFormed_ofText _
  obtain ⟨htree, -⟩ := ofTrace_rooted_or_starved g
    (replay [.expand 0, .expand 1, .advance 2, .expand 0])
  obtain ⟨-, hnone, -, hstarved⟩ := ofTrace_rooted_or_starved g (replay [.expand 1, .expand 2])
  obtain ⟨-, -, -, hunknown⟩ := ofTrace_rooted_or_starved g (replay [.expand 2])
  have hgrown : ofTrace g (replay [.expand 0, .expand 1, .advance 2, .expand 0]) = .ok
      ⟨[⟨"S", [1, 2, 3]⟩, ⟨"a", [4]⟩, ⟨"S", []⟩, ⟨"b", [5, 6, 7]⟩, ⟨"ε", []⟩, ⟨"a", []⟩,
        ⟨"S", []⟩, ⟨"b", []⟩]⟩ := by decide
  have hanswer : answer (ofTrace g (replay [.expand 1, .expand 2])) = .ok none := by decide
  have hfault : answer (ofTrace g (replay [.expand 2])) = .error (.index 2 2) := by decide
  have hstarves : g.Starves (replay [.expand 1, .expand 2]).steps := by
    rcases hnone.1 hanswer with haccepted | hstart | hstarves
    · cases haccepted
    · exact absurd hstart (by decide)
    · exact hstarves
  exact ⟨⟨_, hgrown, (htree _ hgrown).1, rfl⟩, hstarves, (hstarved hg).trans hanswer,
    (hunknown hg).trans hfault⟩

end DerivationTree

end Predictive
