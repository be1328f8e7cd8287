import Predictive.Proofs.Conflict
import Predictive.Proofs.Grammar.Reordering

/-! # The order of the rules does not matter

    With its rules in another order a grammar gets other numbers, and the sweeps
    that compute FIRST and FOLLOW go through other sets on their way. What they
    come to is the same: membership in the final sets is a matter of derivations
    (`mem_ofSequence_first_iff`, `mem_follow_iff`), and these are the same up to
    the numbers. The cells of both tables are made from the final sets, rule by
    rule (`map_ruleTextAt_rulesAt`) or symbol by symbol.

    Main result: `Analysis.agrees_of_perm`.
-/

namespace Predictive

namespace Grammar

variable {g h : Grammar} {x y t u : Symbol}

/-- The texts in a cell: each rule of the non-terminal, in order, as often as
    the lookahead predicts it. -/
theorem map_ruleTextAt_rulesAt {first follow : SymbolSets} (hx : x ∈ g.nonTerminals)
    (ht : t ∈ g.lookaheads) : ((g.table first follow).rulesAt x t).map g.ruleTextAt
      = (g.rules.filter fun r => r.left == x).flatMap fun r =>
          List.replicate ((lookaheadsOf first follow r).count t) (g.ruleText r) := by
  have hrules : g.rules = g.rules.zipIdx.map Prod.fst := (List.zipIdx_map_fst 0 g.rules).symm
  rw [rulesAt_eq hx ht, List.map_flatMap]
  conv_rhs => rw [hrules]
  unfold predictions
  rw [List.filter_map, List.filter_map, List.flatMap_map, List.flatMap_map]
  apply List.flatMap_congr
  intro ri hri
  -- the number beside a rule leads to this rule
  have hrule : g.rules[ri.2]? = some ri.1 :=
    List.mem_zipIdx_iff_getElem?.1 (List.mem_filter.1 hri).1
  have htext : g.ruleTextAt ri.2 = g.ruleText ri.1 := by
    unfold ruleTextAt
    rw [hrule]
    rfl
  rw [List.map_replicate, htext]

theorem lt_size_of_mem_withoutEpsilon {xs : List Symbol} (hxs : ∀ x ∈ xs, x < g.size) :
    ∀ x ∈ withoutEpsilon xs, x < g.size := fun x hx => hxs x (List.mem_of_mem_filter hx)

namespace Reorders

variable (hgh : g.Reorders h)

include hgh

/-! ### Sets -/

theorem map_withoutEpsilon {xs : List Symbol} (hxs : ∀ x ∈ xs, x < g.size) :
    (withoutEpsilon xs).map (g.counterpart h) = withoutEpsilon (xs.map (g.counterpart h)) := by
  unfold withoutEpsilon
  rw [List.filter_map]
  congr 1
  apply List.filter_congr
  intro x hx
  exact decide_eq_decide.2
    (not_congr (hgh.alike_inj (hgh.alike_counterpart (hxs x hx)) hgh.alike_epsilon))

theorem mem_ofSequence_iff {xs : List Symbol} (hxs : ∀ x ∈ xs, x < g.size)
    (htu : g.Alike h t u) : t ∈ (g.first.1.ofSequence xs).1 ↔
      u ∈ (h.first.1.ofSequence (xs.map (g.counterpart h))).1 := by
  rw [mem_ofSequence_first_iff hgh.left, mem_ofSequence_first_iff hgh.right,
    hgh.mem_lookaheads_iff htu, hgh.begins_iff (lt_size_of_mem_withoutEpsilon hxs) htu,
    hgh.map_withoutEpsilon hxs]

theorem vanishes_ofSequence_iff {xs : List Symbol} (hxs : ∀ x ∈ xs, x < g.size) :
    (g.first.1.ofSequence xs).2 = true ↔
      (h.first.1.ofSequence (xs.map (g.counterpart h))).2 = true := by
  rw [vanishes_ofSequence_first_iff hgh.left, vanishes_ofSequence_first_iff hgh.right,
    hgh.derives_nil_iff (lt_size_of_mem_withoutEpsilon hxs), hgh.map_withoutEpsilon hxs]

theorem mem_first_iff (hxy : g.Alike h x y) (htu : g.Alike h t u) :
    t ∈ g.first.1.get x ↔ u ∈ h.first.1.get y := by
  have hx : ∀ z ∈ [x], z < g.size := by
    intro z hz
    rw [List.mem_singleton.1 hz]
    exact hxy.left
  have hbegins := hgh.mem_ofSequence_iff hx htu
  have hvanishes := hgh.vanishes_ofSequence_iff hx
  rw [List.map_singleton, hgh.counterpart_eq hxy] at hbegins hvanishes
  rw [SymbolSets.mem_ofSequence_singleton, SymbolSets.mem_ofSequence_singleton] at hbegins
  rw [SymbolSets.vanishes_ofSequence_singleton, SymbolSets.vanishes_ofSequence_singleton]
    at hvanishes
  have hepsilon := hgh.alike_inj htu hgh.alike_epsilon
  by_cases ht : t = Symbol.epsilon
  · rw [ht, hepsilon.1 ht]
    exact hvanishes
  · have hu : u ≠ Symbol.epsilon := fun hu => ht (hepsilon.2 hu)
    simpa only [ht, hu, ne_eq, not_false_eq_true, and_true] using hbegins

theorem mem_follow_iff (hxy : g.Alike h x y) (htu : g.Alike h t u) :
    t ∈ (g.follow g.first.1).1.get x ↔ u ∈ (h.follow h.first.1).1.get y := by
  by_cases hx : g.kind x = .nonTerminal
  · have hy : h.kind y = .nonTerminal := by rw [← hgh.kind_eq hxy, hx]
    rw [Grammar.mem_follow_iff hgh.left hx, Grammar.mem_follow_iff hgh.right hy,
      hgh.mem_lookaheads_iff htu, hgh.canFollow_iff hxy htu]
  · -- only non-terminals have anything to follow them
    have hy : h.kind y ≠ .nonTerminal := by rwa [← hgh.kind_eq hxy]
    rw [get_follow_of_kind_ne hgh.left hx, get_follow_of_kind_ne hgh.right hy]
    exact iff_of_false (SymbolSet.not_mem_empty t) (SymbolSet.not_mem_empty u)

theorem perm_names_of_sets {a b : SymbolSets} (ha : SymbolSets.Bounded g.size a)
    (hb : SymbolSets.Bounded h.size b)
    (hiff : ∀ {t u}, g.Alike h t u → (t ∈ a.get x ↔ u ∈ b.get y)) :
    (g.names (a.get x).toList).Perm (h.names (b.get y).toList) :=
  hgh.perm_names (fun _ ht => ha.lt ht) (fun _ hu => hb.lt hu)
    ((a.get x).ascending.imp Nat.ne_of_lt) ((b.get y).ascending.imp Nat.ne_of_lt) hiff

/-! ### Rules -/

/-- A rule for `x` makes its counterpart a rule for the counterpart of `x`. -/
theorem exists_rule (hxy : g.Alike h x y) (hrule : ∃ r ∈ g.rules, r.left = x) :
    ∃ r ∈ h.rules, r.left = y := by
  obtain ⟨r, hr, rfl⟩ := hrule
  exact ⟨_, hgh.mem_rules hr, hgh.counterpart_eq hxy⟩

theorem mem_undefined_iff (hxy : g.Alike h x y) : x ∈ g.undefined ↔ y ∈ h.undefined := by
  have hrule : (∃ r ∈ g.rules, r.left = x) ↔ ∃ r ∈ h.rules, r.left = y :=
    ⟨hgh.exists_rule hxy, hgh.symm.exists_rule hxy.symm⟩
  have hany : (g.rules.any (·.left == x)) = h.rules.any (·.left == y) := by
    rw [Bool.eq_iff_iff, List.any_eq_true, List.any_eq_true]
    simpa only [beq_iff_eq] using hrule
  unfold undefined
  rw [List.mem_filter, List.mem_filter, hgh.mem_nonTerminals_iff hxy, hany]

/-- A rule and its counterpart are printed alike. -/
theorem ruleText_eq {r : Rule} (hr : r ∈ g.rules) :
    h.ruleText ⟨g.counterpart h r.left, r.right.map (g.counterpart h)⟩ = g.ruleText r := by
  have hleft := (hgh.alike_counterpart (hgh.left.lt_size_of_left hr)).name
  have hright := hgh.names_map_counterpart fun _ hx => hgh.left.lt_size_of_mem_right hr hx
  unfold ruleText phrase Rule.shown
  simp only
  rw [← hleft, List.isEmpty_map]
  by_cases hempty : r.right.isEmpty = true
  · have hepsilon : h.names [Symbol.epsilon] = g.names [Symbol.epsilon] := by
      show [h.name Symbol.epsilon] = [g.name Symbol.epsilon]
      rw [hgh.alike_epsilon.name]
    rw [if_pos hempty, if_pos hempty, hepsilon]
  · rw [if_neg hempty, if_neg hempty, hright]

/-- A rule is predicted as often as its counterpart. -/
theorem count_lookaheadsOf_eq (htu : g.Alike h t u) {r : Rule} (hr : r ∈ g.rules) :
    (lookaheadsOf h.first.1 (h.follow h.first.1).1
        ⟨g.counterpart h r.left, r.right.map (g.counterpart h)⟩).count u
      = (lookaheadsOf g.first.1 (g.follow g.first.1).1 r).count t := by
  have hright : ∀ x ∈ r.right, x < g.size := fun _ hx => hgh.left.lt_size_of_mem_right hr hx
  have hleft := hgh.alike_counterpart (hgh.left.lt_size_of_left hr)
  simp only [count_lookaheadsOf, ← hgh.mem_ofSequence_iff hright htu,
    ← hgh.vanishes_ofSequence_iff hright, ← hgh.mem_follow_iff hleft htu]

/-! ### Tables -/

theorem mem_cell_iff (hxy : g.Alike h x y) (htu : g.Alike h t u) :
    (x ∈ g.nonTerminals ∧ t ∈ g.lookaheads) ↔ (y ∈ h.nonTerminals ∧ u ∈ h.lookaheads) :=
  and_congr (hgh.mem_nonTerminals_iff hxy) (hgh.mem_lookaheads_iff htu)

/-- A cell holds the same rules as often. -/
theorem perm_ruleTexts (hxy : g.Alike h x y) (htu : g.Alike h t u) :
    (((g.table g.first.1 (g.follow g.first.1).1).rulesAt x t).map g.ruleTextAt).Perm
      (((h.table h.first.1 (h.follow h.first.1).1).rulesAt y u).map h.ruleTextAt) := by
  by_cases hcell : x ∈ g.nonTerminals ∧ t ∈ g.lookaheads
  · obtain ⟨hy, hu⟩ := (hgh.mem_cell_iff hxy htu).1 hcell
    rw [map_ruleTextAt_rulesAt hcell.1 hcell.2, map_ruleTextAt_rulesAt hy hu]
    -- the rules of the other grammar may be taken in the order of this one
    refine List.Perm.trans (List.Perm.of_eq ?_) ((hgh.perm_rules.filter _).flatMap_right _)
    rw [List.filter_map, List.flatMap_map]
    have hfilter : (g.rules.filter fun r => r.left == x)
        = g.rules.filter fun r => g.counterpart h r.left == y := by
      apply List.filter_congr
      intro r hr
      have hleft := hgh.alike_counterpart (hgh.left.lt_size_of_left hr)
      exact beq_eq_beq.2 (hgh.alike_inj hleft hxy)
    rw [hfilter]
    apply List.flatMap_congr
    intro r hr
    have hmem := List.mem_of_mem_filter hr
    rw [hgh.count_lookaheadsOf_eq htu hmem, hgh.ruleText_eq hmem]
  · have hnot := mt (hgh.mem_cell_iff hxy htu).2 hcell
    rw [rulesAt_eq_nil hcell, rulesAt_eq_nil hnot]
    exact .nil

/-- A table without conflicts has none in the other order. -/
theorem isLL1_of_isLL1 (hll1 : (g.table g.first.1 (g.follow g.first.1).1).isLL1 = true) :
    (h.table h.first.1 (h.follow h.first.1).1).isLL1 = true := by
  rw [isLL1_table_iff_length] at hll1 ⊢
  intro y u
  by_cases hcell : y ∈ h.nonTerminals ∧ u ∈ h.lookaheads
  · have hy := lt_size_of_mem_nonTerminals hcell.1
    have hu := hgh.right.lt_size_of_mem_lookaheads hcell.2
    have hsame := (hgh.perm_ruleTexts (hgh.symm.alike_counterpart hy).symm
      (hgh.symm.alike_counterpart hu).symm).length_eq
    rw [List.length_map, List.length_map] at hsame
    rw [← hsame]
    exact hll1 _ _
  · rw [rulesAt_eq_nil hcell]
    exact Nat.zero_le 1

theorem get?_recovery_eq (hxy : g.Alike h x y) (htu : g.Alike h t u) :
    (g.recovery g.first.1 (g.follow g.first.1).1).get? x t
      = (h.recovery h.first.1 (h.follow h.first.1).1).get? y u := by
  have hadvice : Advice.choose g.first.1 (g.follow g.first.1).1 x t
      = Advice.choose h.first.1 (h.follow h.first.1).1 y u := by
    simp only [Advice.choose, hgh.mem_first_iff hxy htu, hgh.mem_follow_iff hxy htu]
  unfold recovery
  rw [Grid.get?_tabulate, Grid.get?_tabulate, hadvice]
  simp only [hgh.mem_cell_iff hxy htu]

end Reorders

end Grammar

namespace Analysis

/-- Two analyses that say the same, where symbols are compared by name. -/
structure Agrees (a b : Analysis) : Prop where
  /-- The symbols have the same names, each with the same kind. -/
  symbols : a.grammar.symbols.Perm b.grammar.symbols
  undefined : (a.grammar.names a.grammar.undefined).Perm (b.grammar.names b.grammar.undefined)
  first : ∀ x y, a.grammar.Alike b.grammar x y →
    (a.grammar.names (a.first.get x).toList).Perm (b.grammar.names (b.first.get y).toList)
  follow : ∀ x y, a.grammar.Alike b.grammar x y →
    (a.grammar.names (a.follow.get x).toList).Perm (b.grammar.names (b.follow.get y).toList)
  rows : (a.grammar.names a.table.rows).Perm (b.grammar.names b.table.rows)
  columns : (a.grammar.names a.table.columns).Perm (b.grammar.names b.table.columns)
  /-- Each cell holds the same rules as often. -/
  table : ∀ x y t u, a.grammar.Alike b.grammar x y → a.grammar.Alike b.grammar t u →
    ((a.table.rulesAt x t).map a.grammar.ruleTextAt).Perm
      ((b.table.rulesAt y u).map b.grammar.ruleTextAt)
  recovery : ∀ x y t u, a.grammar.Alike b.grammar x y → a.grammar.Alike b.grammar t u →
    a.recovery.get? x t = b.recovery.get? y u
  isLL1 : a.table.isLL1 = b.table.isLL1

/-- Analyses of reordered grammars agree. -/
theorem agrees_of_reorders {r s : Reading} (hrs : r.grammar.Reorders s.grammar) :
    (ofReading r).Agrees (ofReading s) := by
  rw [ofReading_eq, ofReading_eq]
  have hr := hrs.left
  have hs := hrs.right
  constructor
  case symbols => exact hrs.symbols
  case undefined =>
    have hlt : ∀ {g : Grammar}, ∀ x ∈ g.undefined, x < g.size := fun x hx =>
      Grammar.lt_size_of_mem_nonTerminals (List.mem_of_mem_filter hx)
    exact hrs.perm_names hlt hlt (Grammar.nodup_ofKind.filter _) (Grammar.nodup_ofKind.filter _)
      hrs.mem_undefined_iff
  case first =>
    intro x y hxy
    exact hrs.perm_names_of_sets (Grammar.bounded_first hr) (Grammar.bounded_first hs)
      (hrs.mem_first_iff hxy)
  case follow =>
    intro x y hxy
    exact hrs.perm_names_of_sets (Grammar.bounded_follow hr) (Grammar.bounded_follow hs)
      (hrs.mem_follow_iff hxy)
  case rows =>
    have hlt : ∀ {g : Grammar}, ∀ x ∈ g.nonTerminals, x < g.size := fun x hx =>
      Grammar.lt_size_of_mem_nonTerminals hx
    exact hrs.perm_names hlt hlt Grammar.nodup_ofKind Grammar.nodup_ofKind hrs.mem_nonTerminals_iff
  case columns =>
    exact hrs.perm_names (fun _ hx => hr.lt_size_of_mem_lookaheads hx)
      (fun _ hx => hs.lt_size_of_mem_lookaheads hx) hr.nodup_lookaheads
      hs.nodup_lookaheads hrs.mem_lookaheads_iff
  case table =>
    intro x y t u hxy htu
    exact hrs.perm_ruleTexts hxy htu
  case recovery =>
    intro x y t u hxy htu
    exact hrs.get?_recovery_eq hxy htu
  case isLL1 =>
    rw [Bool.eq_iff_iff]
    exact ⟨hrs.isLL1_of_isLL1, hrs.symm.isLL1_of_isLL1⟩

/-- The order of the rules does not matter. Texts with the same printed rules,
    each as often, and with start symbols of the same name, have analyses that
    agree. -/
theorem agrees_of_perm (text other : String)
    (hrules : ((ofText text).grammar.rules.map (ofText text).grammar.ruleText).Perm
      ((ofText other).grammar.rules.map (ofText other).grammar.ruleText))
    (hstart : (ofText text).grammar.start?.map (ofText text).grammar.name
      = (ofText other).grammar.start?.map (ofText other).grammar.name) :
    (ofText text).Agrees (ofText other) := by
  simp only [grammar_ofText] at hrules hstart
  exact agrees_of_reorders (Reading.reorders_ofText hrules hstart)

/-- The rule `S -> a b` stands twice. One text mentions `b` before it defines it,
    the other one afterwards, so `a` is 3 here and 4 there, and `b` the other way
    round. The sets of `b` and the cell of `S` (2) and `a` hold the same. -/
theorem agrees_of_perm_of_repeated :
    let text := "S -> a b | ε\nb -> S\nS -> a b"
    let other := "S ->\nb -> S\nS -> a b | a b"
    let a := ofText text
    let b := ofText other
    ((a.grammar.rules.map a.grammar.ruleText).Perm (b.grammar.rules.map b.grammar.ruleText) ∧
      a.grammar.start?.map a.grammar.name = b.grammar.start?.map b.grammar.name) ∧
    a.Agrees b ∧
    (a.grammar.names [3, 4] = ["a", "b"] ∧ b.grammar.names [4, 3] = ["a", "b"]) ∧
    (a.grammar.names (a.first.get 4).toList = ["ε", "a"] ∧
      b.grammar.names (b.first.get 3).toList = ["ε", "a"]) ∧
    (a.grammar.names (a.follow.get 4).toList = ["$"] ∧
      b.grammar.names (b.follow.get 3).toList = ["$"]) ∧
    ((a.table.rulesAt 2 3).map a.grammar.ruleTextAt = ["S -> a b", "S -> a b"] ∧
      (b.table.rulesAt 2 4).map b.grammar.ruleTextAt = ["S -> a b", "S -> a b"]) := by
  intro text other a b
  have htext : a.grammar.rules.map a.grammar.ruleText
      = ["S -> a b", "S -> ε", "b -> S", "S -> a b"] := by decide
  have hother : b.grammar.rules.map b.grammar.ruleText
      = ["S -> ε", "b -> S", "S -> a b", "S -> a b"] := by decide
  have hrules : (a.grammar.rules.map a.grammar.ruleText).Perm
      (b.grammar.rules.map b.grammar.ruleText) := by
    rw [htext, hother]
    decide
  have hstart : a.grammar.start?.map a.grammar.name = b.grammar.start?.map b.grammar.name := by
    decide
  have hnames : a.grammar.names [3, 4] = ["a", "b"] ∧ b.grammar.names [4, 3] = ["a", "b"] := by
    decide
  have hfirst : a.grammar.names (a.first.get 4).toList = ["ε", "a"] ∧
      b.grammar.names (b.first.get 3).toList = ["ε", "a"] := by decide
  have hfollow : a.grammar.names (a.follow.get 4).toList = ["$"] ∧
      b.grammar.names (b.follow.get 3).toList = ["$"] := by decide
  have hcell : (a.table.rulesAt 2 3).map a.grammar.ruleTextAt = ["S -> a b", "S -> a b"] ∧
      (b.table.rulesAt 2 4).map b.grammar.ruleTextAt = ["S -> a b", "S -> a b"] := by decide
  have hagrees : a.Agrees b := by
    -- the hypotheses are compared as they stand, not evaluated again
    with_reducible exact agrees_of_perm text other hrules hstart
  exact ⟨⟨hrules, hstart⟩, hagrees, hnames, hfirst, hfollow, hcell⟩

end Analysis

end Predictive
