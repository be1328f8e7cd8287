import Predictive.Proofs.Machine.Soundness
import Predictive.Proofs.DerivationTree.Growth

/-! # The tree of an accepted input is its parse tree

    The symbols that the machine still has to see are the names of the nodes
    that wait (`Growth.Mirrors`), so the two stacks move together and no step of
    a parse lacks a node. Read in pre-order, the nodes with children are then
    the expansions of the trace, and the leaves are its advances, with an `ε` for
    each rule that vanishes (`Reads`). Each step of the machine is replayed by a
    step of the tree (`Growth.Replays`).

    Main result: `Analysis.ofTrace_parses`.
-/

namespace Predictive

namespace DerivationTree

/-- Node `i` has the name of the left side of a rule, and its children have the
    names of what the right side shows, from left to right. -/
def Applies (tree : DerivationTree) (g : Grammar) (i rule : Nat) : Prop :=
  ∃ node r, tree.nodes[i]? = some node ∧ g.rules[rule]? = some r ∧
    node.symbol = g.name r.left ∧
    node.children.map (fun j => (tree.nodes[j]?).map Node.symbol) = (g.names r.shown).map some

/-- A tree of this grammar with root `start`, made by these rules, for these
    words. -/
structure Parses (tree : DerivationTree) (g : Grammar) (start : Symbol) (rules : List Nat)
    (words : List String) : Prop where
  root : (tree.nodes[0]?).map Node.symbol = some (g.name start)
  applies : ∀ i node, tree.nodes[i]? = some node → node.children ≠ [] →
    ∃ rule, tree.Applies g i rule
  /-- In pre-order from the root each node comes once, and those with children
      apply the rules in order. -/
  preorder : ∃ order, tree.Preorder [0] order ∧ order.Perm (List.range tree.nodes.length) ∧
    List.Forall₂ (tree.Applies g) (order.filter tree.isInner) rules
  leaves : tree.leaves.filter (· ≠ Symbol.epsilonName) = words

/-- These nodes apply the rules that the steps expand by, and the leaves among
    them, other than `ε`, are what the steps read. -/
structure Reads (tree : DerivationTree) (g : Grammar) (order : List Nat) (steps : List Step) :
    Prop where
  rules : List.Forall₂ (tree.Applies g) (order.filter tree.isInner) (expansions steps)
  words : (order.filterMap tree.leafName?).filter (· ≠ Symbol.epsilonName) =
    g.names (advances steps)

variable {g : Grammar} {tree : DerivationTree} {t t' : Growth} {r : Rule} {steps : List Step}
variable {x : Symbol} {xs stack : List Symbol} {position i node rule : Nat}
variable {order waiting children hidden : List Nat} {name : String}

namespace Reads

theorem nil : tree.Reads g [] [] := ⟨.nil, rfl⟩

/-- A step that reads a word gives a leaf. -/
theorem advance (h : tree.Reads g order steps) (here : tree.nodes[i]? = some ⟨g.name x, []⟩)
    (hname : g.name x ≠ Symbol.epsilonName) :
    tree.Reads g (i :: order) (⟨stack, position, .advance x⟩ :: steps) where
  rules := by
    rw [List.filter_cons_of_neg (by simp [isInner_leaf here])]
    exact h.rules
  words := by
    rw [List.filterMap_cons_some (leafName?_leaf here),
      List.filter_cons_of_pos (by simpa using hname), h.words]
    rfl

/-- Leaves that are `ε` show neither a rule nor a word. -/
theorem hide (h : tree.Reads g order steps)
    (hhidden : ∀ i ∈ hidden, tree.nodes[i]? = some ⟨Symbol.epsilonName, []⟩) :
    tree.Reads g (hidden ++ order) steps := by
  induction hidden with
  | nil => exact h
  | cons i hidden ih =>
    have here := hhidden i List.mem_cons_self
    have hrest := ih fun j hj => hhidden j (List.mem_cons_of_mem _ hj)
    constructor
    · rw [List.cons_append, List.filter_cons_of_neg (by simp [isInner_leaf here])]
      exact hrest.rules
    · rw [List.cons_append, List.filterMap_cons_some (leafName?_leaf here),
        List.filter_cons_of_neg (by simp)]
      exact hrest.words

/-- A step that expands gives a node with children. -/
theorem expand (h : tree.Reads g order steps) (here : tree.nodes[i]? = some ⟨name, children⟩)
    (hchildren : children ≠ []) (happlies : tree.Applies g i rule) :
    tree.Reads g (i :: order) (⟨stack, position, .expand rule⟩ :: steps) where
  rules := by
    have hinner : tree.isInner i = true := by
      rw [isInner_eq here]
      simpa using hchildren
    rw [List.filter_cons_of_pos hinner]
    exact .cons happlies h.rules
  words := by
    have hleaf : tree.leafName? i = none := by
      rw [leafName?_eq here]
      simpa using hchildren
    rw [List.filterMap_cons_none hleaf]
    exact h.words

end Reads

/-! ### Nodes and symbols that wait -/

namespace Growth

/-- The nodes that wait have the names of these symbols, and no children yet. -/
def Mirrors (g : Grammar) (t : Growth) (xs : List Symbol) : Prop :=
  t.pending.map (t.nodes[·]?) = xs.map fun x => some ⟨g.name x, []⟩

namespace Mirrors

theorem exists_cons (h : t.Mirrors g (x :: xs)) : ∃ node waiting, t.pending = node :: waiting ∧
    t.nodes[node]? = some ⟨g.name x, []⟩ ∧ Mirrors g { t with pending := waiting } xs := by
  unfold Mirrors at h
  cases hpending : t.pending with
  | nil =>
    rw [hpending] at h
    cases h
  | cons node waiting =>
    rw [hpending, List.map_cons, List.map_cons] at h
    obtain ⟨here, hrest⟩ := List.cons.inj h
    exact ⟨node, waiting, rfl, here, hrest⟩

theorem eq_nil (h : t.Mirrors g []) : t.pending = [] := List.map_eq_nil_iff.1 h

/-- The symbols of a right side wait as the children of the node. -/
theorem expand (h : t.Mirrors g xs) (hready : t.Ready) (hnode : node ∉ t.pending) :
    (Growth.expand g r node t).Mirrors g (r.right ++ xs) := by
  have hold : t.pending.map ((Growth.expand g r node t).nodes[·]?) =
      t.pending.map (t.nodes[·]?) := by
    apply List.map_congr_left
    intro i hi
    exact getElem?_expand_of_ne (hready.lt_length hi) (ne_of_mem_of_not_mem hi hnode)
  have hnew := map_getElem?_expand_new g r node t
  -- the children that wait, then the nodes that waited before
  unfold Mirrors at h ⊢
  show ((if r.right.isEmpty then [] else _) ++ t.pending).map _ = _
  rw [List.map_append, List.map_append, hold, h]
  congr 1
  by_cases hr : r.right.isEmpty = true
  · rw [if_pos hr, List.isEmpty_iff.1 hr]
    rfl
  · rw [if_neg hr, hnew, Grammar.names, List.map_map]
    unfold Rule.shown
    rw [if_neg hr]
    rfl

end Mirrors

/-- The children keep the names that the rule shows. -/
theorem map_symbol_children (hgrows : Grows (Growth.expand g r node t) t') :
    (List.range' t.nodes.length r.shown.length).map (fun j => (t'.nodes[j]?).map Node.symbol) =
      (g.names r.shown).map some := by
  have hnew := congrArg (List.map (Option.map Node.symbol)) (map_getElem?_expand_new g r node t)
  rw [List.map_map, List.map_map] at hnew
  refine Eq.trans ?_ hnew
  apply List.map_congr_left
  intro j hj
  apply hgrows.symbol_eq
  rw [length_expand]
  exact (List.mem_range'_1.1 hj).2

theorem shown_ne_nil : r.shown ≠ [] := by
  unfold Rule.shown
  split
  · exact List.cons_ne_nil _ _
  · next h => simpa using h

/-- The steps grow this tree to its end, and it shows them. -/
def Replays (g : Grammar) (t : Growth) (steps : List Step) : Prop :=
  ∃ t', grow g t steps = .ok t' ∧
    ∀ order, Preorder ⟨t'.nodes⟩ t.pending order → Reads ⟨t'.nodes⟩ g order steps

namespace Replays

theorem nil (hpending : t.pending = []) : t.Replays g [] := by
  refine ⟨t, rfl, ?_⟩
  intro order horder
  rw [hpending] at horder
  cases horder
  exact .nil

/-- An advance leaves the first node that waits as the leaf of its word. -/
theorem advance (hready : t.Ready) (hpending : t.pending = node :: waiting)
    (hfresh : t.nodes[node]? = some ⟨g.name x, []⟩) (hname : g.name x ≠ Symbol.epsilonName)
    (h : Replays g { t with pending := waiting } steps) :
    t.Replays g (⟨stack, position, .advance x⟩ :: steps) := by
  obtain ⟨t', hgrow, hreads⟩ := h
  have hgrows := grows_of_grow hgrow
  have hstep : t.step g (.advance x) = .ok { t with pending := waiting } :=
    step_eq_ok_iff.2 ⟨node, waiting, hpending, .inl ⟨x, rfl, rfl⟩⟩
  refine ⟨t', grow_cons_eq_ok_iff.2 ⟨_, hstep, hgrow⟩, ?_⟩
  intro order horder
  obtain ⟨after, rfl, hwaiting⟩ := (hready.preorder_of_advance hpending hgrows).1 horder
  exact (hreads after hwaiting).advance (hready.taken_of_advance hpending hfresh hgrows) hname

/-- An expansion makes the first node that waits an application of its rule. -/
theorem expand (hepsilon : g.name Symbol.epsilon = Symbol.epsilonName) (hready : t.Ready)
    (hpending : t.pending = node :: waiting) (hr : g.rules[rule]? = some r)
    (hfresh : t.nodes[node]? = some ⟨g.name r.left, []⟩)
    (h : Replays g (Growth.expand g r node { t with pending := waiting }) steps) :
    t.Replays g (⟨stack, position, .expand rule⟩ :: steps) := by
  obtain ⟨t', hgrow, hreads⟩ := h
  have hgrows := grows_of_grow hgrow
  have hstep : t.step g (.expand rule) =
      .ok (Growth.expand g r node { t with pending := waiting }) :=
    step_eq_ok_iff.2 ⟨node, waiting, hpending, .inr ⟨rule, r, rfl, hr, rfl⟩⟩
  refine ⟨t', grow_cons_eq_ok_iff.2 ⟨_, hstep, hgrow⟩, ?_⟩
  intro order horder
  obtain ⟨after, rfl, hwaiting⟩ := (hready.preorder_of_expand hpending hgrows).1 horder
  have here := hready.taken_of_expand hpending hfresh hgrows
  have hhidden : ∀ i ∈ vanished r t, t'.nodes[i]? = some ⟨Symbol.epsilonName, []⟩ := by
    rw [← hepsilon]
    exact hready.vanished_of_expand hpending hgrows
  have hchildren : List.range' t.nodes.length r.shown.length ≠ [] := by
    simpa using shown_ne_nil
  have hsymbols := map_symbol_children (t := { t with pending := waiting }) hgrows
  exact ((hreads after hwaiting).hide hhidden).expand here hchildren
    ⟨_, r, here, hr, rfl, hsymbols⟩

end Replays
end Growth

/-! ### The tree as a whole -/

theorem exists_applies_of_mem {is rules : List Nat}
    (h : List.Forall₂ (tree.Applies g) is rules) (hi : i ∈ is) : ∃ rule, tree.Applies g i rule := by
  induction h with
  | nil => cases hi
  | @cons j rule _ _ happlies _ ih =>
    rcases List.mem_cons.1 hi with rfl | hi
    · exact ⟨rule, happlies⟩
    · exact ih hi

/-- A tree that has grown from its root and shows its steps is a parse tree. -/
theorem parses_of_grow {start : Symbol}
    (hgrow : grow g (.root (g.name start)) steps = .ok t')
    (hreads : ∀ order, Preorder ⟨t'.nodes⟩ [0] order → Reads ⟨t'.nodes⟩ g order steps) :
    Parses ⟨t'.nodes⟩ g start (expansions steps) (g.names (advances steps)) := by
  have hgrows := grows_of_grow hgrow
  obtain ⟨order, horder, hall⟩ := preorder_of_grow_root hgrow
  have hshows := hreads order horder
  constructor
  · exact hgrows.symbol_eq 0 Nat.zero_lt_one
  · intro i node here hchildren
    refine exists_applies_of_mem hshows.rules (List.mem_filter.2 ⟨?_, ?_⟩)
    · exact hall.mem_iff.2 (List.mem_range.2 (List.getElem?_eq_some_iff.1 here).1)
    · rw [isInner_eq here]
      simpa using hchildren
  · exact ⟨order, horder, hall, hshows.rules⟩
  · have hlength : order.length = t'.nodes.length := by
      rw [hall.length_eq, List.length_range]
    rw [horder.leaves_eq hlength]
    exact hshows.words

end DerivationTree

/-! ### The tree of a run -/

open DerivationTree

/-- A run to the bottom of the stack is replayed by nodes that mirror the stack. -/
theorem Machine.Reached.replays {m : Machine} {start : Symbol} {is : List Nat}
    {c c' : Configuration} {read pending : List Symbol} {steps : List Step} {t : Growth}
    (hm : m.Standard) (hstart : m.grammar.start? = some start)
    (h : m.Reached start is c read pending) (hruns : m.Runs c steps c')
    (hend : c'.stack = [Symbol.endMark])
    (hnames : ∀ x ∈ advances steps, m.grammar.name x ≠ Symbol.epsilonName) (hready : t.Ready)
    (hmirrors : t.Mirrors m.grammar pending) : t.Replays m.grammar steps := by
  -- `Mirrors` goes along with `Reached` from each configuration to the next
  induction hruns generalizing is read pending t with
  | nil c =>
    obtain rfl : pending = [] := by
      have hstack := h.stack_eq
      rw [hend] at hstack
      simpa using hstack
    exact .nil hmirrors.eq_nil
  | @cons c c' action steps next _ ih =>
    rcases h.step hm hstart next with ⟨x, rest, rfl, rfl, -, hafter⟩ |
      ⟨i, r, rest, rfl, hr, rfl, hafter⟩
    · obtain ⟨node, waiting, hpending, hfresh, hrest⟩ := hmirrors.exists_cons
      have hnext := ih hafter hend (fun y hy => hnames y (List.mem_cons_of_mem _ hy))
        (hready.advance hpending) hrest
      exact hnext.advance hready hpending hfresh (hnames x List.mem_cons_self)
    · -- the children take the place of the node, as the right side does on the stack
      obtain ⟨node, waiting, hpending, hfresh, hrest⟩ := hmirrors.exists_cons
      have hnode := hready.not_mem_waiting hpending
      have hwaiting := hready.advance hpending
      have hnext := ih hafter hend hnames (hwaiting.expand hnode) (hrest.expand hwaiting hnode)
      exact hnext.expand hm.wellFormed.name_epsilon hready hpending hr hfresh

namespace Analysis

variable {a : Analysis} {input : String} {limit : Option Nat} {fuel : Nat} {start : Symbol}
variable {t : Trace}

theorem parses_of_parse (hm : (a.machine input).Standard)
    (hstart : a.grammar.start? = some start) (ht : a.parse input limit fuel = some t)
    (haccepted : t.accepted = true) (hrules : ∀ r ∈ a.grammar.rules, Symbol.endMark ∉ r.right)
    (hwords : Symbol.endMarkName ∉ Phrase.names input.toList) :
    ∃ tree, ofTrace a.grammar t = .ok tree ∧
      tree.Parses a.grammar start (expansions t.steps) t.tokens.dropLast := by
  obtain ⟨htokens, last, hruns, hverdict⟩ := Machine.runs_of_parse ht
  have hnext := hverdict .accepted (of_decide_eq_true haccepted)
  have hinitial := Machine.reached_initial (m := a.machine input) hstart
  obtain ⟨pending, hlast⟩ := hinitial.extend hm hstart hruns
  obtain ⟨rfl, hnames⟩ := hlast.accepted hm hstart hnext hrules tokens_machine hwords
  rw [List.nil_append] at hnames
  -- no word is `ε`
  have hne : ∀ x ∈ advances t.steps, a.grammar.name x ≠ Symbol.epsilonName := by
    intro x hx
    have hmem : a.grammar.name x ∈ Phrase.names input.toList := by
      rw [← hnames]
      exact List.mem_map_of_mem hx
    exact (isName_of_mem_names hmem).ne_epsilon
  obtain ⟨t', hgrow, hreads⟩ := hinitial.replays (t := .root (a.grammar.name start)) hm hstart
    hruns hlast.stack_eq hne (Growth.ready_root _) rfl
  refine ⟨⟨t'.nodes⟩, ofTrace_eq_ok haccepted hstart hgrow, ?_⟩
  rw [htokens, tokens_machine, List.dropLast_concat, ← hnames]
  exact parses_of_grow hgrow hreads

/-- The tree of an accepted input is its parse tree, if `$` is neither in a right
    side nor in the input. -/
theorem ofTrace_parses (text input : String) (limit : Option Nat) (fuel : Nat)
    {start : Symbol} {t : Trace} (hstart : (ofText text).grammar.start? = some start)
    (hrules : ∀ r ∈ (ofText text).grammar.rules, Symbol.endMark ∉ r.right)
    (hwords : Symbol.endMarkName ∉ Phrase.names input.toList)
    (ht : (ofText text).parse input limit fuel = some t) (haccepted : t.accepted = true) :
    ∃ tree, ofTrace (ofText text).grammar t = .ok tree ∧
      tree.Parses (ofText text).grammar start (expansions t.steps) t.tokens.dropLast :=
  parses_of_parse (standard_ofText text input) hstart ht haccepted hrules hwords

/-- In `S -> a S b |` the words `a b` have a tree of five nodes. The rule that
    vanishes gives node 4, an `ε` between `a` and `b`. -/
theorem ofTrace_parses_of_nested :
    let a := ofText "S -> a S b |"
    let t : Trace :=
      { tokens := ["a", "b", "$"]
        steps := [⟨[2, 1], 0, .expand 0⟩, ⟨[3, 2, 4, 1], 0, .advance 3⟩,
          ⟨[2, 4, 1], 1, .expand 1⟩, ⟨[4, 1], 1, .advance 4⟩]
        status := .finished .accepted }
    let tree : DerivationTree :=
      ⟨[⟨"S", [1, 2, 3]⟩, ⟨"a", []⟩, ⟨"S", [4]⟩, ⟨"b", []⟩, ⟨"ε", []⟩]⟩
    a.grammar.start? = some 2 ∧ a.parse "a b" none 4 = some t ∧
      ofTrace a.grammar t = .ok tree ∧ tree.Parses a.grammar 2 [0, 1] ["a", "b"] := by
  intro a t tree
  have hstart : a.grammar.start? = some 2 := by decide
  have hrules : ∀ r ∈ a.grammar.rules, Symbol.endMark ∉ r.right := by decide
  have hwords : Phrase.names "a b".toList = ["a", "b"] := by decide
  have ht : a.parse "a b" none 4 = some t := by decide
  have htree : ofTrace a.grammar t = .ok tree := by decide
  obtain ⟨tree', htree', hparses⟩ :=
    ofTrace_parses "S -> a S b |" "a b" none 4 hstart hrules (by rw [hwords]; decide) ht rfl
  obtain rfl : tree' = tree := Except.ok.inj (htree'.symm.trans htree)
  exact ⟨hstart, ht, htree, hparses⟩

end Analysis

end Predictive
