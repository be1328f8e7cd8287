import Predictive.Proofs.Table
import Predictive.Proofs.Grammar.Leftmost

/-! # What a conflict means

    A cell can list more than one entry for two reasons: two rules are
    predicted there, or one rule is predicted twice, since its lookahead both
    begins its right side and follows its left side, while the right side
    vanishes.

    The second reason never comes alone. Where one rule is predicted twice,
    its right side vanishes by a leftmost derivation and yet can begin with the
    lookahead. Going along this derivation, there is a last form that can begin
    with the lookahead; its first symbol vanishes by one rule and begins with
    the lookahead by another one, and both are predicted for it
    (`Grammar.exists_two_rules`).

    So a table has no conflict just if no cell predicts two different rules
    (`Grammar.isLL1_table_iff`), and just if rules with the same left side are
    predicted by different symbols (`Grammar.isLL1_table_iff_disjoint`).

    Main result: `Analysis.isLL1_iff_disjoint`.
-/

namespace Predictive

namespace Grammar

variable {g : Grammar} {first follow : SymbolSets} {x t : Symbol} {xs : List Symbol}

/-! ### Two rules in one cell -/

/-- What can begin a non-terminal begins the right side of one of its rules. -/
theorem exists_rule_of_begins (hg : g.WellFormed) (hlook : t ∈ g.lookaheads)
    (hx : g.kind x = .nonTerminal) (h : g.Begins [x] t) :
    ∃ (i : Nat) (r : Rule), g.rules[i]? = some r ∧ r.left = x ∧
      t ∈ (g.first.1.ofSequence r.right).1 := by
  obtain ⟨rest, hrest⟩ := h
  have hkind := hg.kind_ne_nonTerminal_of_mem_lookaheads hlook
  obtain ⟨is, rest', hleftmost⟩ := hrest.leftmost_head hg
  obtain ⟨i, js, r, -, hr, hleft, hright⟩ := hleftmost.first_rule_of_head hx <| by
    intro y hy
    rw [← Option.some.inj hy]
    exact hkind
  have hfirst := firstClosed_first hg
  have hbegins := (hfirst.derives hright.derives).1 (hfirst.mem_ofSequence_cons_self hg hlook)
  rw [List.append_nil] at hbegins
  exact ⟨i, r, hr, hleft, hbegins⟩

/-- A covered form that vanishes, and can begin with what comes after it, has a
    cell in its derivation that predicts two rules. -/
theorem exists_two_rules (hg : g.WellFormed) (hlook : t ∈ g.lookaheads) {is : List Nat}
    (h : g.LeftmostDerives is xs [])
    (hcovers : g.Covers g.first.1 (g.follow g.first.1).1 (· = t) xs)
    (ht : t ∈ (g.first.1.ofSequence xs).1) :
    ∃ y i j, i ≠ j ∧ i ∈ (g.table g.first.1 (g.follow g.first.1).1).rulesAt y t ∧
      j ∈ (g.table g.first.1 (g.follow g.first.1).1).rulesAt y t := by
  have hfirst := firstClosed_first hg
  induction is generalizing xs with
  | nil =>
    cases h with
    | nil => exact absurd ht (SymbolSet.not_mem_empty t)
  | cons i is ih =>
    cases xs with
    | nil =>
      obtain ⟨habsurd, -⟩ := h.of_nil rfl
      cases habsurd
    | cons x xs =>
      have hx : g.kind x = .nonTerminal := by
        by_contra hne
        obtain ⟨b', hb', -⟩ := h.behind hg hne
        cases hb'
      obtain ⟨j, js, r, heq, hr, rfl, hrest⟩ := h.first_rule_of_head hx (by simp)
      obtain ⟨rfl, rfl⟩ := List.cons.inj heq
      have hmem := List.mem_of_getElem? hr
      have hvanish := (hfirst.derives hrest.derives).2 rfl
      by_cases hnext : t ∈ (g.first.1.ofSequence (r.right ++ xs)).1
      · -- the next form can still begin with `t`
        have hstep : g.Yields (r.left :: xs) (r.right ++ xs) := .replace [] xs hmem
        exact ih hrest (hcovers.yields hg hfirst (followClosed_follow hg) hstep) hnext
      · -- it is the left side that can begin with `t`, by another rule
        have hfront : g.Covers g.first.1 (g.follow g.first.1).1 (· = t) ([] ++ r.left :: xs) :=
          hcovers
        have hpredicted := mem_lookaheadsOf_of_covers hg hmem hfront (.inr ⟨hvanish, rfl⟩)
        rw [SymbolSets.mem_ofSequence_append] at hnext
        rw [SymbolSets.vanishes_ofSequence_append] at hvanish
        have hleft : t ∈ g.first.1.get r.left := by
          rcases SymbolSets.mem_ofSequence_cons.1 ht with ⟨hleft, -⟩ | ⟨-, hbehind⟩
          · exact hleft
          · exact absurd (.inr ⟨hvanish.1, hbehind⟩) hnext
        have hbegins : g.Begins [r.left] t := by
          rcases (mem_first_iff hg hx).1 hleft with ⟨-, hbegins⟩ | ⟨heps, -⟩
          · exact hbegins
          · exact absurd heps (hg.ne_epsilon_of_mem_lookaheads hlook)
        obtain ⟨k, s, hs, hsame, hright⟩ := exists_rule_of_begins hg hlook hx hbegins
        have hrow := mem_nonTerminals.2 hx
        refine ⟨r.left, i, k, ?_, ?_, ?_⟩
        · intro hik
          rw [hik, hs] at hr
          rw [Option.some.inj hr] at hright
          exact hnext (.inl hright)
        · exact mem_rulesAt.2 ⟨hrow, hlook, r, hr, rfl, hpredicted⟩
        · exact mem_rulesAt.2 ⟨hrow, hlook, s, hs, hsame, mem_lookaheadsOf.2 (.inl hright)⟩

/-- Where one rule is predicted twice, two rules are predicted somewhere. -/
theorem exists_two_rules_of_twice (hg : g.WellFormed) (hlook : t ∈ g.lookaheads) {r : Rule}
    (hr : r ∈ g.rules) (hbegins : t ∈ (g.first.1.ofSequence r.right).1)
    (hnil : (g.first.1.ofSequence r.right).2 = true)
    (hfollow : t ∈ (g.follow g.first.1).1.get r.left) :
    ∃ y i j, i ≠ j ∧ i ∈ (g.table g.first.1 (g.follow g.first.1).1).rulesAt y t ∧
      j ∈ (g.table g.first.1 (g.follow g.first.1).1).rulesAt y t := by
  have hvanish := (vanishes_ofSequence_first_iff hg).1 hnil
  rw [hg.withoutEpsilon_right hr] at hvanish
  obtain ⟨is, hleftmost⟩ := hvanish.leftmost_word hg (by simp)
  have hleft : g.Covers g.first.1 (g.follow g.first.1).1 (· = t) [r.left] := by
    apply covers_singleton
    intro u hu
    rw [hu]
    exact hfollow
  have hright := hleft.derives hg (firstClosed_first hg) (followClosed_follow hg) (.rule hr)
  exact exists_two_rules hg hlook hleftmost hright hbegins

/-! ### One rule twice in one cell -/

/-- A symbol predicts a rule once, unless it both begins the right side and
    follows the left side. -/
theorem count_lookaheadsOf_le {r : Rule}
    (h : ¬(t ∈ (first.ofSequence r.right).1 ∧ (first.ofSequence r.right).2 = true ∧
      t ∈ follow.get r.left)) : (lookaheadsOf first follow r).count t ≤ 1 := by
  rw [count_lookaheadsOf]
  by_cases hbegins : t ∈ (first.ofSequence r.right).1
  · -- then it is not among those that follow
    rw [if_pos hbegins, if_neg fun hfollows => h ⟨hbegins, hfollows⟩]
  · rw [if_neg hbegins, Nat.zero_add]
    split
    · exact Nat.le_refl 1
    · exact Nat.zero_le 1

/-- If no rule is predicted twice for a symbol, its cells have no repetition. -/
theorem nodup_rulesAt
    (h : ∀ r ∈ g.rules, (lookaheadsOf first follow r).count t ≤ 1) :
    ((g.table first follow).rulesAt x t).Nodup := by
  rw [List.nodup_iff_count]
  intro i
  by_cases hi : i ∈ (g.table first follow).rulesAt x t
  · obtain ⟨hx, ht, r, hr, hleft, -⟩ := mem_rulesAt.1 hi
    rw [count_rulesAt hx ht hr, if_pos hleft]
    exact h r (List.mem_of_getElem? hr)
  · rw [List.count_eq_zero.2 hi]
    exact Nat.zero_le 1

/-! ### Conflicts -/

theorem length_le_one_of_nodup {rules : List Nat} (hnodup : rules.Nodup)
    (hsame : ∀ i j, i ∈ rules → j ∈ rules → i = j) : rules.length ≤ 1 := by
  match rules with
  | [] => exact Nat.zero_le 1
  | [_] => exact Nat.le_refl 1
  | i :: j :: rest =>
    have hij : i = j := hsame i j (by simp) (by simp)
    rw [hij] at hnodup
    simp at hnodup

/-- A table has no conflict just if no cell has two entries. -/
theorem isLL1_table_iff_length : (g.table first follow).isLL1 = true ↔
    ∀ x t, ((g.table first follow).rulesAt x t).length ≤ 1 := by
  constructor
  · intro h x t
    exact Table.length_rulesAt_le h
  · intro h
    unfold Table.isLL1
    rw [List.all_eq_true]
    intro row hrow
    rw [List.all_eq_true]
    intro rules hrules
    obtain ⟨x, hx, rfl⟩ := List.mem_map.1 hrow
    obtain ⟨t, ht, rfl⟩ := List.mem_map.1 hrules
    have hcell := h x t
    rw [rulesAt_eq hx ht] at hcell
    exact decide_eq_true hcell

/-- A table has no conflict just if no cell predicts two different rules: a rule
    that competes with itself is never the only one to compete. -/
theorem isLL1_table_iff (hg : g.WellFormed) :
    (g.table g.first.1 (g.follow g.first.1).1).isLL1 = true ↔
      ∀ x t i j, i ∈ (g.table g.first.1 (g.follow g.first.1).1).rulesAt x t →
        j ∈ (g.table g.first.1 (g.follow g.first.1).1).rulesAt x t → i = j := by
  constructor
  · intro h x t i j hi hj
    have hhead := Table.head?_rulesAt h hi
    rw [Table.head?_rulesAt h hj] at hhead
    exact (Option.some.inj hhead).symm
  · intro h
    rw [isLL1_table_iff_length]
    intro x t
    by_cases hlook : t ∈ g.lookaheads
    · have honce : ∀ r ∈ g.rules,
          (lookaheadsOf g.first.1 (g.follow g.first.1).1 r).count t ≤ 1 := by
        intro r hr
        apply count_lookaheadsOf_le
        intro htwice
        obtain ⟨hbegins, hnil, hfollow⟩ := htwice
        obtain ⟨y, i, j, hne, hi, hj⟩ := exists_two_rules_of_twice hg hlook hr hbegins hnil hfollow
        exact hne (h y t i j hi hj)
      exact length_le_one_of_nodup (nodup_rulesAt honce) (h x t)
    · have hempty : (g.table g.first.1 (g.follow g.first.1).1).rulesAt x t = [] := by
        rw [List.eq_nil_iff_forall_not_mem]
        intro i hi
        exact hlook (mem_rulesAt.1 hi).2.1
      rw [hempty]
      exact Nat.zero_le 1

/-- A table has no conflict if it lists none. -/
theorem isLL1_table_iff_conflicts : (g.table first follow).isLL1 = true ↔
    (g.table first follow).conflicts = [] := by
  rw [isLL1_table_iff_length]
  constructor
  · intro h
    rw [List.eq_nil_iff_forall_not_mem]
    intro c hc
    obtain ⟨⟨-, -, hrules⟩, hlength⟩ := mem_conflicts_iff.1 hc
    exact absurd (h c.nonTerminal c.lookahead) (Nat.not_le.2 (hrules ▸ hlength))
  · intro h x t
    by_contra hlength
    by_cases hcell : x ∈ g.nonTerminals ∧ t ∈ g.lookaheads
    · have hc : ⟨x, t, (g.table first follow).rulesAt x t⟩ ∈ (g.table first follow).conflicts :=
        mem_conflicts_iff.2 ⟨⟨hcell.1, hcell.2, rfl⟩, Nat.lt_of_not_le hlength⟩
      rw [h] at hc
      cases hc
    · rw [rulesAt_eq_nil hcell] at hlength
      exact hlength (Nat.zero_le 1)

theorem conflicts_ne_nil_iff (hg : g.WellFormed) :
    (g.table g.first.1 (g.follow g.first.1).1).conflicts ≠ [] ↔
      ∃ x t i j, i ≠ j ∧ i ∈ (g.table g.first.1 (g.follow g.first.1).1).rulesAt x t ∧
        j ∈ (g.table g.first.1 (g.follow g.first.1).1).rulesAt x t := by
  rw [ne_eq, ← isLL1_table_iff_conflicts, isLL1_table_iff hg]
  constructor
  · intro h
    by_contra hnone
    apply h
    intro x t i j hi hj
    by_contra hne
    exact hnone ⟨x, t, i, j, hne, hi, hj⟩
  · rintro ⟨x, t, i, j, hne, hi, hj⟩ h
    exact hne (h x t i j hi hj)

/-! ### Prediction sets -/

/-- The symbol predicts the rule: it is in FIRST of the right side or, if the right
    side vanishes, in FOLLOW of the left side. -/
def Predicts (first follow : SymbolSets) (r : Rule) (t : Symbol) : Prop :=
  t ∈ (first.ofSequence r.right).1 ∨
    ((first.ofSequence r.right).2 = true ∧ t ∈ follow.get r.left)

/-- A rule stands in the cells of the symbols that predict it. -/
theorem mem_rulesAt_left_iff (hg : g.WellFormed) {i : Nat} {r : Rule}
    (hr : g.rules[i]? = some r) :
    i ∈ (g.table g.first.1 (g.follow g.first.1).1).rulesAt r.left t ↔
      Predicts g.first.1 (g.follow g.first.1).1 r t := by
  rw [mem_rulesAt]
  constructor
  · rintro ⟨-, -, s, hs, -, hmem⟩
    obtain rfl := Option.some.inj (hr.symm.trans hs)
    exact mem_lookaheadsOf.1 hmem
  · intro h
    have hkind := hg.kind_left (List.mem_of_getElem? hr)
    -- both sets hold columns of the table only
    have hlook : t ∈ g.lookaheads := by
      rcases h with hbegins | ⟨-, hfollows⟩
      · exact ((mem_ofSequence_first_iff hg).1 hbegins).1
      · exact ((mem_follow_iff hg hkind).1 hfollows).1
    exact ⟨mem_nonTerminals.2 hkind, hlook, r, hr, rfl, mem_lookaheadsOf.2 h⟩

/-- A rule stands twice where it begins with a symbol and vanishes before it. -/
theorem count_rulesAt_of_twice (hg : g.WellFormed) {i : Nat} {r : Rule}
    (hr : g.rules[i]? = some r) (hbegins : t ∈ (g.first.1.ofSequence r.right).1)
    (hnil : (g.first.1.ofSequence r.right).2 = true)
    (hfollow : t ∈ (g.follow g.first.1).1.get r.left) :
    ((g.table g.first.1 (g.follow g.first.1).1).rulesAt r.left t).count i = 2 := by
  have hrow := mem_nonTerminals.2 (hg.kind_left (List.mem_of_getElem? hr))
  have hlook := ((mem_ofSequence_first_iff hg).1 hbegins).1
  rw [count_rulesAt hrow hlook hr, if_pos rfl, count_lookaheadsOf, if_pos hbegins,
    if_pos ⟨hnil, hfollow⟩]

/-- A table has no conflict just if rules with the same left side are predicted by
    different symbols. -/
theorem isLL1_table_iff_disjoint (hg : g.WellFormed) :
    (g.table g.first.1 (g.follow g.first.1).1).isLL1 = true ↔
      ∀ (i j : Nat) (r s : Rule), i ≠ j → g.rules[i]? = some r → g.rules[j]? = some s →
        r.left = s.left → ∀ t, ¬(Predicts g.first.1 (g.follow g.first.1).1 r t ∧
          Predicts g.first.1 (g.follow g.first.1).1 s t) := by
  rw [isLL1_table_iff hg]
  constructor
  · intro h i j r s hne hr hs hleft t hboth
    have hi := (mem_rulesAt_left_iff hg hr).2 hboth.1
    have hj := (mem_rulesAt_left_iff hg hs).2 hboth.2
    rw [← hleft] at hj
    exact hne (h r.left t i j hi hj)
  · intro h x t i j hi hj
    by_contra hne
    obtain ⟨-, -, r, hr, rfl, -⟩ := mem_rulesAt.1 hi
    obtain ⟨-, -, s, hs, hleft, -⟩ := mem_rulesAt.1 hj
    have hpredicts := (mem_rulesAt_left_iff hg hr).1 hi
    rw [← hleft] at hj
    exact h i j r s hne hr hs hleft.symm t ⟨hpredicts, (mem_rulesAt_left_iff hg hs).1 hj⟩

end Grammar

namespace Analysis

/-- A conflict is never a rule that competes with itself only. The table is not
    LL(1) just if it has conflicts, and just if some cell holds two rules. A
    vanishing rule stands twice in a cell where FIRST of its right side meets
    FOLLOW of its left side; then some cell in the same column holds two rules.
    And the table is LL(1) just if the symbols that predict two rules with the
    same left side are always disjoint. -/
theorem isLL1_iff_disjoint (text : String) :
    let a := ofText text
    (a.table.isLL1 = false ↔ a.table.conflicts ≠ []) ∧
    (a.table.conflicts ≠ [] ↔
      ∃ x t i j, i ≠ j ∧ i ∈ a.table.rulesAt x t ∧ j ∈ a.table.rulesAt x t) ∧
    (∀ (i : Nat) (r : Rule) t, a.grammar.rules[i]? = some r → t ∈ (a.first.ofSequence r.right).1 →
      (a.first.ofSequence r.right).2 = true → t ∈ a.follow.get r.left →
      (a.table.rulesAt r.left t).count i = 2 ∧
        ∃ x j k, j ≠ k ∧ j ∈ a.table.rulesAt x t ∧ k ∈ a.table.rulesAt x t) ∧
    (a.table.isLL1 = true ↔
      ∀ (i j : Nat) (r s : Rule), i ≠ j → a.grammar.rules[i]? = some r →
        a.grammar.rules[j]? = some s → r.left = s.left →
        ∀ t, ¬(Grammar.Predicts a.first a.follow r t ∧
          Grammar.Predicts a.first a.follow s t)) := by
  intro a
  have hg : a.grammar.WellFormed := wellFormed_ofText
  have hfirst : a.first = a.grammar.first.1 := first_ofText
  have hfollow : a.follow = (a.grammar.follow a.grammar.first.1).1 := follow_ofText
  have htable : a.table = a.grammar.table a.first a.follow := table_ofText
  rw [htable, hfollow, hfirst]
  refine ⟨?_, Grammar.conflicts_ne_nil_iff hg, ?_, Grammar.isLL1_table_iff_disjoint hg⟩
  · rw [← Bool.not_eq_true, Grammar.isLL1_table_iff_conflicts]
  · intro i r t hr hbegins hnil hfollows
    have hmem := List.mem_of_getElem? hr
    have hlook := ((Grammar.mem_ofSequence_first_iff hg).1 hbegins).1
    exact ⟨Grammar.count_rulesAt_of_twice hg hr hbegins hnil hfollows,
      Grammar.exists_two_rules_of_twice hg hlook hmem hbegins hnil hfollows⟩

/-- The second rule stands twice in its cell for `a`. The conflict is that of the
    last two rules. -/
theorem isLL1_iff_disjoint_of_repeated :
    let a := ofText "S -> B a\nB -> A\nA -> a |"
    a.grammar.rules = [⟨2, [3, 4]⟩, ⟨3, [5]⟩, ⟨5, [4]⟩, ⟨5, []⟩] ∧
    a.table.rulesAt 3 4 = [1, 1] ∧ (a.table.rulesAt 3 4).count 1 = 2 ∧
    (∃ x j k, j ≠ k ∧ j ∈ a.table.rulesAt x 4 ∧ k ∈ a.table.rulesAt x 4) ∧
    a.table.conflicts = [⟨3, 4, [1, 1]⟩, ⟨5, 4, [2, 3]⟩] ∧ a.table.isLL1 = false := by
  intro a
  have hrules : a.grammar.rules = [⟨2, [3, 4]⟩, ⟨3, [5]⟩, ⟨5, [4]⟩, ⟨5, []⟩] := by decide +kernel
  have hcell : a.table.rulesAt 3 4 = [1, 1] := by decide +kernel
  have hconflicts : a.table.conflicts = [⟨3, 4, [1, 1]⟩, ⟨5, 4, [2, 3]⟩] := by decide +kernel
  obtain ⟨hlisted, -, htwice, -⟩ :=
    isLL1_iff_disjoint "S -> B a\nB -> A\nA -> a |"
  obtain ⟨hcount, htwo⟩ := htwice 1 ⟨3, [5]⟩ 4 (by rw [hrules]; rfl) (by decide +kernel)
    (by decide +kernel) (by decide +kernel)
  refine ⟨hrules, hcell, hcount, htwo, hconflicts, hlisted.2 ?_⟩
  rw [hconflicts]
  exact List.cons_ne_nil _ _

end Analysis

end Predictive
