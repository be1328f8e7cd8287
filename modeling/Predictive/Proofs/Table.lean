import Predictive.Proofs.Sets.Follow

/-! # What the table predicts

    A rule is predicted for its left side and a lookahead just if the lookahead
    can begin its right side, or the right side can vanish and the lookahead
    follows the left side (`Grammar.mem_rulesAt`). A rule may be listed twice
    in a cell (`Grammar.count_rulesAt`), and smaller rule numbers come first
    (`Grammar.pairwise_rulesAt`).

    In a table without conflicts a rule that is predicted is the only one, so
    it is the one that is taken (`Table.head?_rulesAt`).
-/

namespace Predictive

variable {x t : Symbol} {i : Nat}

namespace Grammar

variable {g : Grammar} {first follow : SymbolSets}

theorem mem_lookaheadsOf {r : Rule} : t ∈ lookaheadsOf first follow r ↔
    t ∈ (first.ofSequence r.right).1 ∨
      ((first.ofSequence r.right).2 = true ∧ t ∈ follow.get r.left) := by
  unfold lookaheadsOf
  simp only
  rw [List.mem_append, SymbolSet.mem_toList]
  by_cases hv : (first.ofSequence r.right).2 = true
  · rw [if_pos hv, SymbolSet.mem_toList]
    simp [hv]
  · rw [if_neg hv]
    simp [hv]

/-- A symbol predicts a rule once for beginning its right side, and once for
    following its left side if the right side vanishes. -/
theorem count_lookaheadsOf {r : Rule} : (lookaheadsOf first follow r).count t =
    (if t ∈ (first.ofSequence r.right).1 then 1 else 0) +
      if (first.ofSequence r.right).2 = true ∧ t ∈ follow.get r.left then 1 else 0 := by
  have hcount : ∀ s : SymbolSet, s.toList.count t = if t ∈ s then 1 else 0 :=
    fun s => List.Nodup.count (s.ascending.imp Nat.ne_of_lt)
  unfold lookaheadsOf
  simp only
  rw [List.count_append, hcount]
  by_cases hv : (first.ofSequence r.right).2 = true
  · rw [if_pos hv, hcount]
    simp only [hv, true_and]
  · have hnot : ¬((first.ofSequence r.right).2 = true ∧ t ∈ follow.get r.left) :=
      fun hfollows => hv hfollows.1
    rw [if_neg hv, List.count_nil, if_neg hnot]

theorem mem_predictions {p : Prediction} : p ∈ g.predictions first follow ↔
    ∃ r, g.rules[p.rule]? = some r ∧ p.left = r.left ∧
      p.lookaheads = lookaheadsOf first follow r := by
  unfold predictions
  rw [List.mem_map]
  constructor
  · intro h
    obtain ⟨⟨r, i⟩, hmem, hp⟩ := h
    subst hp
    exact ⟨r, List.mem_zipIdx_iff_getElem?.1 hmem, rfl, rfl⟩
  · intro h
    obtain ⟨r, hr, hleft, hlookaheads⟩ := h
    refine ⟨(r, p.rule), List.mem_zipIdx_iff_getElem?.2 hr, ?_⟩
    show (⟨p.rule, r.left, lookaheadsOf first follow r⟩ : Prediction) = p
    rw [← hleft, ← hlookaheads]

/-- A rule is predicted in a covered form for what can come next once it is
    applied: what begins the form, or what is outside if the form vanishes. -/
theorem mem_lookaheadsOf_of_covers (hg : g.WellFormed) {outside : Symbol → Prop} {r : Rule}
    (hr : r ∈ g.rules) {before after : List Symbol}
    (hcovers : g.Covers first follow outside (before ++ r.left :: after))
    (ht : t ∈ (first.ofSequence (r.right ++ after)).1 ∨
      ((first.ofSequence (r.right ++ after)).2 = true ∧ outside t)) :
    t ∈ lookaheadsOf first follow r := by
  have hleft := hcovers before r.left after rfl (hg.kind_left hr) t
  rw [SymbolSets.mem_ofSequence_append, SymbolSets.vanishes_ofSequence_append] at ht
  rw [mem_lookaheadsOf]
  rcases ht with (hright | ⟨hnil, hafter⟩) | ⟨⟨hnil, hafter⟩, hout⟩
  · exact .inl hright
  · exact .inr ⟨hnil, hleft (.inl hafter)⟩
  · exact .inr ⟨hnil, hleft (.inr ⟨hafter, hout⟩)⟩

/-- A cell holds the predictions of its non-terminal, each as often as the
    symbol is among its lookaheads; there are no others. -/
theorem rulesAt_eq_ite : (g.table first follow).rulesAt x t =
    if x ∈ g.nonTerminals ∧ t ∈ g.lookaheads then
      ((g.predictions first follow).filter (·.left == x)).flatMap fun p =>
        List.replicate (p.lookaheads.count t) p.rule
    else [] := by
  unfold Table.rulesAt table
  rw [Grid.get?_tabulate]
  split
  · rfl
  · rfl

theorem rulesAt_eq (hx : x ∈ g.nonTerminals) (ht : t ∈ g.lookaheads) :
    (g.table first follow).rulesAt x t =
      ((g.predictions first follow).filter (·.left == x)).flatMap fun p =>
        List.replicate (p.lookaheads.count t) p.rule := by
  rw [rulesAt_eq_ite, if_pos ⟨hx, ht⟩]

/-- Nothing is predicted outside the rows and columns. -/
theorem rulesAt_eq_nil (h : ¬(x ∈ g.nonTerminals ∧ t ∈ g.lookaheads)) :
    (g.table first follow).rulesAt x t = [] := by
  rw [rulesAt_eq_ite, if_neg h]

/-- Which rules stand in a cell. -/
theorem mem_rulesAt : i ∈ (g.table first follow).rulesAt x t ↔
    x ∈ g.nonTerminals ∧ t ∈ g.lookaheads ∧
      ∃ r, g.rules[i]? = some r ∧ r.left = x ∧ t ∈ lookaheadsOf first follow r := by
  by_cases hcell : x ∈ g.nonTerminals ∧ t ∈ g.lookaheads
  · rw [rulesAt_eq hcell.1 hcell.2, List.mem_flatMap]
    constructor
    · intro h
      obtain ⟨p, hp, hi⟩ := h
      obtain ⟨hp, hleft⟩ := List.mem_filter.1 hp
      obtain ⟨r, hr, hr', hlookaheads⟩ := mem_predictions.1 hp
      obtain ⟨hcount, rfl⟩ := List.mem_replicate.1 hi
      refine ⟨hcell.1, hcell.2, r, hr, ?_, ?_⟩
      · rw [← hr']
        exact beq_iff_eq.1 hleft
      · rw [← hlookaheads]
        exact List.count_pos_iff.1 (Nat.pos_of_ne_zero hcount)
    · intro h
      obtain ⟨-, -, r, hr, hleft, ht⟩ := h
      refine ⟨⟨i, r.left, lookaheadsOf first follow r⟩, ?_, ?_⟩
      · rw [List.mem_filter]
        exact ⟨mem_predictions.2 ⟨r, hr, rfl, rfl⟩, beq_iff_eq.2 hleft⟩
      · rw [List.mem_replicate]
        exact ⟨Nat.ne_of_gt (List.count_pos_iff.2 ht), rfl⟩
  · rw [rulesAt_eq_nil hcell]
    constructor
    · intro h
      cases h
    · intro h
      exact absurd ⟨h.1, h.2.1⟩ hcell

theorem map_rule_predictions :
    (g.predictions first follow).map Prediction.rule = List.range g.rules.length := by
  unfold predictions
  rw [List.map_map, List.range_eq_range', ← List.zipIdx_map_snd]
  rfl

theorem nodup_predictions : (g.predictions first follow).Nodup := by
  have hrules : ((g.predictions first follow).map Prediction.rule).Nodup := by
    rw [map_rule_predictions]
    exact List.nodup_range
  exact (List.pairwise_map.1 hrules).imp fun hne h => hne (congrArg Prediction.rule h)

/-- A prediction is told from the others by its rule. -/
theorem eq_of_rule_eq {p q : Prediction} (hp : p ∈ g.predictions first follow)
    (hq : q ∈ g.predictions first follow) (h : p.rule = q.rule) : p = q := by
  obtain ⟨r, hr, hleft, hlookaheads⟩ := mem_predictions.1 hp
  obtain ⟨s, hs, hleft', hlookaheads'⟩ := mem_predictions.1 hq
  rw [h, hs] at hr
  obtain rfl := Option.some.inj hr
  cases p
  cases q
  simp_all only

/-- A rule stands in a cell of its left side as often as the symbol is among its
    lookaheads. -/
theorem count_rulesAt (hx : x ∈ g.nonTerminals) (ht : t ∈ g.lookaheads) {r : Rule}
    (hr : g.rules[i]? = some r) : ((g.table first follow).rulesAt x t).count i =
      if r.left = x then (lookaheadsOf first follow r).count t else 0 := by
  let entries : Prediction → List Nat := fun q => List.replicate (q.lookaheads.count t) q.rule
  let p : Prediction := ⟨i, r.left, lookaheadsOf first follow r⟩
  have hp : p ∈ g.predictions first follow := mem_predictions.2 ⟨r, hr, rfl, rfl⟩
  -- without its prediction the rule is not entered
  have hnone : ∀ ps : List Prediction, ps ⊆ g.predictions first follow → p ∉ ps →
      (ps.flatMap entries).count i = 0 := by
    intro ps hps hnot
    rw [List.count_eq_zero, List.mem_flatMap]
    rintro ⟨q, hq, hi⟩
    exact hnot (eq_of_rule_eq hp (hps hq) (List.eq_of_mem_replicate hi) ▸ hq)
  have hsub : (g.predictions first follow).filter (·.left == x) ⊆ g.predictions first follow :=
    List.filter_sublist.subset
  rw [rulesAt_eq hx ht]
  by_cases hleft : r.left = x
  · rw [if_pos hleft]
    have hmem : p ∈ (g.predictions first follow).filter (·.left == x) :=
      List.mem_filter.2 ⟨hp, beq_iff_eq.2 hleft⟩
    have hnodup : ((g.predictions first follow).filter (·.left == x)).Nodup :=
      nodup_predictions.filter _
    obtain ⟨before, after, hsplit⟩ := List.append_of_mem hmem
    rw [hsplit] at hsub hnodup ⊢
    obtain ⟨hbefore, hafter⟩ : p ∉ before ∧ p ∉ after := by
      rw [List.nodup_middle, List.nodup_cons, List.mem_append, not_or] at hnodup
      exact hnodup.1
    rw [List.flatMap_append, List.flatMap_cons, List.count_append, List.count_append,
      hnone before (fun q hq => hsub (by simp [hq])) hbefore,
      hnone after (fun q hq => hsub (by simp [hq])) hafter, Nat.zero_add, Nat.add_zero]
    exact List.count_replicate_self
  · rw [if_neg hleft]
    apply hnone _ hsub
    intro h
    exact hleft (beq_iff_eq.1 (List.mem_filter.1 h).2)

/-- A cell lists its rules in their order. -/
theorem pairwise_rulesAt : ((g.table first follow).rulesAt x t).Pairwise (· ≤ ·) := by
  by_cases hcell : x ∈ g.nonTerminals ∧ t ∈ g.lookaheads
  · rw [rulesAt_eq hcell.1 hcell.2, List.pairwise_flatMap]
    constructor
    · intro p _
      exact List.pairwise_replicate.2 (.inr (Nat.le_refl p.rule))
    · have hrules : ((g.predictions first follow).map Prediction.rule).Pairwise (· < ·) := by
        rw [map_rule_predictions]
        exact List.pairwise_lt_range
      refine ((List.pairwise_map.1 hrules).filter _).imp ?_
      intro p q hlt i hi j hj
      rw [List.eq_of_mem_replicate hi, List.eq_of_mem_replicate hj]
      exact Nat.le_of_lt hlt
  · rw [rulesAt_eq_nil hcell]
    exact .nil

/-- A table lists, for each row and column, the rules that are found there. -/
theorem table_eq_tabulate : g.table first follow
    = .tabulate g.nonTerminals g.lookaheads (g.table first follow).rulesAt := by
  apply Grid.tabulate_congr
  intro x hx t ht
  exact (rulesAt_eq hx ht).symm

/-- What is found in a cell are the rules that are predicted there. -/
theorem get?_table (hx : x ∈ g.nonTerminals) (ht : t ∈ g.lookaheads) :
    (g.table first follow).get? x t = some ((g.table first follow).rulesAt x t) := by
  conv_lhs => rw [table_eq_tabulate, Grid.get?_tabulate, if_pos ⟨hx, ht⟩]

theorem mem_entries_table {rules : List Nat} : (x, t, rules) ∈ (g.table first follow).entries ↔
    x ∈ g.nonTerminals ∧ t ∈ g.lookaheads ∧ rules = (g.table first follow).rulesAt x t := by
  conv_lhs => rw [table_eq_tabulate, Grid.entries_tabulate]
  rw [List.mem_flatMap]
  constructor
  · rintro ⟨y, hy, hentry⟩
    obtain ⟨u, hu, hentry⟩ := List.mem_map.1 hentry
    cases hentry
    exact ⟨hy, hu, rfl⟩
  · rintro ⟨hx, ht, rfl⟩
    exact ⟨x, hx, List.mem_map.2 ⟨t, ht, rfl⟩⟩

/-- A conflict names a cell of the table with more than one entry, and has the
    rules of this cell. -/
theorem mem_conflicts_iff {c : Conflict} : c ∈ (g.table first follow).conflicts ↔
    (c.nonTerminal ∈ g.nonTerminals ∧ c.lookahead ∈ g.lookaheads ∧
      c.rules = (g.table first follow).rulesAt c.nonTerminal c.lookahead) ∧
    1 < c.rules.length := by
  rw [← mem_entries_table]
  unfold Table.conflicts
  constructor
  · intro h
    obtain ⟨⟨x, t, rules⟩, hkept, rfl⟩ := List.mem_map.1 h
    obtain ⟨hentry, hlength⟩ := List.mem_filter.1 hkept
    exact ⟨hentry, of_decide_eq_true hlength⟩
  · rintro ⟨hentry, hlength⟩
    exact List.mem_map.2 ⟨_, List.mem_filter.2 ⟨hentry, decide_eq_true hlength⟩, rfl⟩

theorem lt_length_of_mem_rulesAt (h : i ∈ (g.table first follow).rulesAt x t) :
    i < g.rules.length := by
  obtain ⟨-, -, r, hr, -⟩ := mem_rulesAt.1 h
  exact (List.getElem?_eq_some_iff.1 hr).1

end Grammar

namespace Table

variable {table : Table}

theorem length_rulesAt_le (h : table.isLL1 = true) : (table.rulesAt x t).length ≤ 1 := by
  unfold rulesAt
  cases hcell : table.get? x t with
  | none => exact Nat.zero_le 1
  | some rules =>
    unfold Grid.get? at hcell
    obtain ⟨row, hrow, hcell⟩ := Option.bind_eq_some_iff.1 hcell
    obtain ⟨j, -, hrules⟩ := Option.bind_eq_some_iff.1 hcell
    unfold Grid.row? at hrow
    obtain ⟨k, -, hrow⟩ := Option.bind_eq_some_iff.1 hrow
    unfold isLL1 at h
    have hall := List.all_eq_true.1 h row (List.mem_of_getElem? hrow)
    have hle := List.all_eq_true.1 hall rules (List.mem_of_getElem? hrules)
    exact of_decide_eq_true hle

/-- A table without conflicts takes each rule where it predicts it. -/
theorem head?_rulesAt (h : table.isLL1 = true) (hi : i ∈ table.rulesAt x t) :
    (table.rulesAt x t).head? = some i := by
  have hle := length_rulesAt_le (x := x) (t := t) h
  cases hrules : table.rulesAt x t with
  | nil =>
    rw [hrules] at hi
    cases hi
  | cons j rest =>
    rw [hrules] at hi hle
    obtain rfl : rest = [] := List.eq_nil_of_length_eq_zero (by simpa using hle)
    rw [List.mem_singleton.1 hi]
    rfl

end Table

end Predictive
