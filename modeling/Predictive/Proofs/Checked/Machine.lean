import Predictive.Checked.Machine
import Predictive.Proofs.Checked.Tables
import Predictive.Proofs.DerivationTree.Reading
import Predictive.Proofs.Machine.Invariant

/-! # Parses and trees are made without a fault

    The invariant of a parse (`Machine.Intact`) says that the symbol on top is
    one of the grammar, and a rule that stands in a cell is a rule of the
    grammar, so the machine finds all that it looks up (`parseWithin_eq`).

    The nodes that wait mirror the stack above its bottom at every step, also
    where `$` is among them, so no step lacks a node and the tree of an accepted
    input is made to its end (`exists_grow_of_runs`). What has grown from a root is a
    tree, so its leaves are found by visiting each node once (`leaves_eq`).
-/

namespace Predictive.Checked

variable {m : Machine} {c c' : Configuration} {action : Action} {steps : List Step}
variable {words : List String}

/-! ### The machine -/

theorem predicted_eq (hm : m.Standard) (x : Symbol) (token : String) :
    ∃ rules, predicted m x token = .ok rules ∧ rules.head? = m.ruleFor? x token := by
  unfold predicted Machine.ruleFor?
  cases m.grammar.symbol? token with
  | none => exact ⟨[], rfl, rfl⟩
  | some lookahead =>
    refine ⟨m.table.rulesAt x lookahead, ?_, rfl⟩
    simp only
    rw [hm.table_eq]
    exact rulesAt_eq

theorem next_eq (hm : m.Standard) (h : m.Intact c) : next m c = .ok (m.next c) := by
  -- the stack has a top and the input a current token
  obtain ⟨above, hbottom⟩ := h.bottom
  obtain ⟨top, below, hstack⟩ : ∃ top below, c.stack = top :: below := by
    apply List.exists_cons_of_ne_nil
    rw [hbottom]
    simp
  obtain ⟨token, htoken⟩ : ∃ token, m.tokens[c.position]? = some token :=
    ⟨_, List.getElem?_eq_getElem h.position⟩
  have htop : top < m.grammar.size := h.symbols top (by rw [hstack]; exact List.mem_cons_self)
  unfold next Machine.next
  rw [hstack, htoken]
  simp only
  by_cases hmark : top = Symbol.endMark ∧ token = Symbol.endMarkName
  · rw [if_pos hmark, if_pos hmark]
    rfl
  · rw [if_neg hmark, if_neg hmark, kindOf_eq htop, ok_bind]
    cases hkind : m.grammar.kind top with
    | nonTerminal =>
      obtain ⟨rules, hrules, hhead⟩ := predicted_eq hm top token
      simp only
      rw [hrules, ok_bind, hhead]
      cases m.ruleFor? top token <;> rfl
    | epsilon => rfl
    | terminal | endMarker =>
      simp only
      rw [nameOf_eq htop, ok_bind]
      rfl

theorem apply_eq (hm : m.Standard) (h : m.Intact c) (hnext : m.next c = .ok action) :
    apply m c action = .ok (m.apply c action) := by
  cases h.move hm hnext with
  | expand rule =>
    unfold apply Machine.apply
    simp only
    rw [read_of_getElem? rule, Machine.rightOf_eq rule]
    rfl
  | advance => rfl

theorem run_eq (hm : m.Standard) (htokens : m.tokens = words ++ [Symbol.endMarkName])
    (fuel : Nat) (h : m.Intact c) : run m fuel c = .ok (m.run fuel c) := by
  -- the invariant goes along with the configuration
  induction fuel generalizing c with
  | zero =>
    unfold run Machine.run
    rw [next_eq hm h, ok_bind]
    cases m.next c <;> rfl
  | succ fuel ih =>
    unfold run Machine.run
    rw [next_eq hm h, ok_bind]
    cases hnext : m.next c with
    | error verdict => rfl
    | ok action =>
      simp only
      rw [apply_eq hm h hnext, ok_bind, ih (h.step hm htokens hnext)]
      rfl

/-- A parse finds all that it looks up. -/
theorem parseWithin_eq (hm : m.Standard) (htokens : m.tokens = words ++ [Symbol.endMarkName])
    (limit : Nat) : parseWithin m limit = .ok (m.parseWithin limit) := by
  unfold parseWithin Machine.parseWithin
  rw [run_eq hm htokens limit (Machine.intact_initial hm htokens)]
  rfl

/-! ### Trees -/

open DerivationTree

variable {g : Grammar} {t t' : Growth} {r : Rule} {node : Nat} {xs : List Symbol}

theorem expand_eq (hg : g.WellFormed) (hr : r ∈ g.rules) (hnode : node < t.nodes.length) :
    expand g r node t = .ok (Growth.expand g r node t) := by
  unfold expand Growth.expand
  rw [namesOf_eq (hg.lt_size_of_mem_shown hr), ok_bind]
  simp only
  rw [update_append_left hnode]
  rfl

/-- A step that finds its node finds its rule and the place of the node. -/
theorem growStep_eq (hg : g.WellFormed) (hready : t.Ready) (hstep : t.step g action = .ok t') :
    growStep g t action = .ok (some t') := by
  obtain ⟨node, waiting, hpending, haction⟩ := Growth.step_eq_ok_iff.1 hstep
  unfold growStep
  rw [hpending]
  rcases haction with ⟨x, rfl, rfl⟩ | ⟨i, r, rfl, rule, rfl⟩
  · rfl
  · have hlt : node < t.nodes.length := hready.lt_length (Growth.mem_pending hpending)
    have hexpand : expand g r node { t with pending := waiting } = .ok _ :=
      expand_eq hg (List.mem_of_getElem? rule) hlt
    simp only
    rw [read_of_getElem? rule, ok_bind, hexpand]
    rfl

theorem grow_eq (hg : g.WellFormed) (hready : t.Ready)
    (hgrow : DerivationTree.grow g t steps = .ok t') : grow g t steps = .ok (some t') := by
  induction steps generalizing t with
  | nil =>
    obtain rfl : t = t' := Except.ok.inj hgrow
    rfl
  | cons s steps ih =>
    obtain ⟨u, hstep, hrest⟩ := grow_cons_eq_ok_iff.1 hgrow
    rw [grow, growStep_eq hg hready hstep, ← ih (hready.step hstep) hrest]
    rfl

/-- Every run is replayed to its end by nodes that mirror the stack above its
    bottom. -/
theorem exists_grow_of_runs (hm : m.Standard)
    (htokens : m.tokens = words ++ [Symbol.endMarkName]) (hruns : m.Runs c steps c')
    (h : m.Intact c) (hstack : c.stack = xs ++ [Symbol.endMark]) (hready : t.Ready)
    (hmirrors : t.Mirrors m.grammar xs) :
    ∃ t', DerivationTree.grow m.grammar t steps = .ok t' := by
  induction hruns generalizing t xs with
  | nil => exact ⟨t, rfl⟩
  | @cons c c' action steps next _ ih =>
    have hintact := h.step hm htokens next
    -- the symbol that a step takes is the first of those that the nodes mirror
    cases h.move hm next with
    | @expand i r above rule stack after =>
      obtain rfl : xs = r.left :: above := List.append_cancel_right (hstack.symm.trans stack)
      obtain ⟨node, waiting, hpending, -, hrest⟩ := hmirrors.exists_cons
      have hwaiting := hready.advance hpending
      have hnode := hready.not_mem_waiting hpending
      obtain ⟨t', hgrow⟩ := ih hintact (congrArg Configuration.stack after)
        (hwaiting.expand hnode) (hrest.expand hwaiting hnode)
      have hstep := Growth.step_eq_ok_iff.2
        ⟨node, waiting, hpending, .inr ⟨i, r, rfl, rule, rfl⟩⟩
      exact ⟨t', grow_cons_eq_ok_iff.2 ⟨_, hstep, hgrow⟩⟩
    | @advance x above kind ne_endMark stack token after =>
      obtain rfl : xs = x :: above := List.append_cancel_right (hstack.symm.trans stack)
      obtain ⟨node, waiting, hpending, -, hrest⟩ := hmirrors.exists_cons
      obtain ⟨t', hgrow⟩ := ih hintact (congrArg Configuration.stack after)
        (hready.advance hpending) hrest
      have hstep : t.step m.grammar (.advance x) = .ok { t with pending := waiting } :=
        Growth.step_eq_ok_iff.2 ⟨node, waiting, hpending, .inl ⟨x, rfl, rfl⟩⟩
      exact ⟨t', grow_cons_eq_ok_iff.2 ⟨_, hstep, hgrow⟩⟩

/-- A run from the start is replayed to its end by the start symbol alone. -/
theorem exists_grow_root (hm : m.Standard)
    (htokens : m.tokens = words ++ [Symbol.endMarkName]) (hruns : m.Runs m.initial steps c')
    {start : Symbol} (hstart : m.grammar.start? = some start) :
    ∃ t', DerivationTree.grow m.grammar (.root (m.grammar.name start)) steps = .ok t' := by
  have hstack : m.initial.stack = [start] ++ [Symbol.endMark] := by
    show m.grammar.start?.toList ++ [Symbol.endMark] = _
    rw [hstart]
    rfl
  exact exists_grow_of_runs hm htokens hruns (Machine.intact_initial hm htokens) hstack
    (Growth.ready_root _) rfl

/-- What the tree of a trace is made from is found, and there is no tree only
    where a trace has none. -/
theorem treeOf_eq (hm : m.Standard)
    (htokens : m.tokens = words ++ [Symbol.endMarkName]) {trace : Trace}
    (hruns : m.Runs m.initial trace.steps c') :
    treeOf m.grammar trace = .ok (ofTrace m.grammar trace).toOption := by
  by_cases haccepted : trace.accepted = true
  · cases hstart : m.grammar.start? with
    | none =>
      unfold treeOf ofTrace
      rw [if_pos haccepted, if_pos haccepted, hstart]
      rfl
    | some start =>
      obtain ⟨t', hgrow⟩ := exists_grow_root hm htokens hruns hstart
      have hlt : start < m.grammar.size :=
        Grammar.lt_size_of_nonTerminal (hm.wellFormed.kind_start hstart)
      unfold treeOf
      rw [if_pos haccepted, hstart, ofTrace_eq_ok haccepted hstart hgrow]
      simp only
      rw [nameOf_eq hlt, ok_bind, grow_eq hm.wellFormed (Growth.ready_root _) hgrow]
      rfl
  · unfold treeOf ofTrace
    rw [if_neg haccepted, if_neg haccepted]
    rfl

/-- As many visits as nodes find what lies below the nodes and collect its
    leaves. -/
theorem leavesFrom_eq {tree : DerivationTree} {is order : List Nat} (h : tree.Preorder is order)
    {fuel : Nat} {waiting : List Nat} {names : List String}
    (hwaiting : leavesFrom tree fuel waiting = .ok (some names)) :
    leavesFrom tree (order.length + fuel) (is ++ waiting)
      = .ok (some (order.filterMap tree.leafName? ++ names)) := by
  induction h generalizing fuel waiting names with
  | nil => rwa [List.length_nil, Nat.zero_add]
  | @cons i node siblings below after here children rest ihchildren ihrest =>
    have hfuel : (i :: (below ++ after)).length + fuel =
        below.length + (after.length + fuel) + 1 := by
      rw [List.length_cons, List.length_append]
      omega
    have hrest := ihrest hwaiting
    rw [hfuel, List.cons_append, leavesFrom, read_of_getElem? here, ok_bind, List.filterMap_cons,
      leafName?_eq here]
    by_cases hleaf : node.children.isEmpty = true
    · -- nothing lies below a leaf
      rw [List.isEmpty_iff.1 hleaf] at children
      cases children
      rw [if_pos hleaf, if_pos hleaf, List.length_nil, Nat.zero_add, hrest]
      rfl
    · have hbelow := ihchildren hrest
      rw [if_neg hleaf, if_neg hleaf, hbelow, List.filterMap_append, List.append_assoc]

/-- The leaves of the tree of a trace are found. -/
theorem leaves_eq {trace : Trace} {tree : DerivationTree} (h : ofTrace g trace = .ok tree) :
    leaves tree = .ok (some tree.leaves) := by
  obtain ⟨start, t', hgrow, rfl⟩ := exists_grow_of_ofTrace h
  -- in pre-order each node comes once, so there are as many visits as nodes
  obtain ⟨order, horder, hall⟩ := preorder_of_grow_root hgrow
  have hlength : order.length = t'.nodes.length := by
    rw [hall.length_eq, List.length_range]
  have hvisits := @leavesFrom_eq _ _ _ horder 0 [] [] rfl
  rw [hlength, Nat.add_zero, List.append_nil, List.append_nil] at hvisits
  unfold leaves
  rw [horder.leaves_eq hlength]
  exact hvisits

end Predictive.Checked
