import Predictive.Proofs.Machine.Soundness
import Predictive.Proofs.Table

/-! # What stands in a cell

    A rule stands in a cell of its left side once if its right side derives a form
    that begins with the column, and once if its right side derives the empty form
    and the column is in FOLLOW of the left side (`Grammar.count_rulesAt_left`).
    Both can be, so it can stand there twice. Rules stand in their order, so the
    one that the machine takes is the first of those that are predicted
    (`Machine.Standard.first_of_expand`).

    Main result: `Analysis.rulesAt_exact`.
-/

namespace Predictive

namespace Grammar

variable {g : Grammar} {t : Symbol} {i : Nat} {r : Rule}

/-! ### Right sides -/

theorem mem_first_right_iff (hg : g.WellFormed) (hr : r ∈ g.rules) (ht : t ∈ g.lookaheads) :
    t ∈ (g.first.1.ofSequence r.right).1 ↔ g.Begins r.right t := by
  rw [mem_ofSequence_first_iff hg, hg.withoutEpsilon_right hr]
  exact and_iff_right ht

theorem vanishes_right_iff (hg : g.WellFormed) (hr : r ∈ g.rules) :
    (g.first.1.ofSequence r.right).2 = true ↔ g.Derives r.right [] := by
  rw [vanishes_ofSequence_first_iff hg, hg.withoutEpsilon_right hr]

open Classical in
/-- A rule stands in a cell of its left side once for each reason to predict it. -/
theorem count_rulesAt_left (hg : g.WellFormed) (hr : g.rules[i]? = some r)
    (ht : t ∈ g.lookaheads) :
    ((g.table g.first.1 (g.follow g.first.1).1).rulesAt r.left t).count i =
      (if g.Begins r.right t then 1 else 0) +
        if g.Derives r.right [] ∧ t ∈ (g.follow g.first.1).1.get r.left then 1 else 0 := by
  have hmem := List.mem_of_getElem? hr
  have hx := mem_nonTerminals.2 (hg.kind_left hmem)
  have hbegins := mem_first_right_iff hg hmem ht
  have hvanishes := vanishes_right_iff hg hmem
  rw [count_rulesAt hx ht hr, if_pos rfl, count_lookaheadsOf]
  exact congrArg₂ (· + ·) (if_congr hbegins rfl rfl)
    (if_congr (and_congr_left' hvanishes) rfl rfl)

end Grammar

/-! ### The rule that is taken -/

namespace Machine

variable {m : Machine} {c : Configuration} {i : Nat}

/-- An expansion takes the first rule that is predicted for the top of the stack
    and the token. -/
theorem Standard.first_of_expand (hm : m.Standard) (h : m.next c = .ok (.expand i)) :
    ∃ x below token t, c.stack = x :: below ∧ m.tokens[c.position]? = some token ∧
      m.grammar.symbol? token = some t ∧ i ∈ m.table.rulesAt x t ∧
      ∀ j ∈ m.table.rulesAt x t, i ≤ j := by
  obtain ⟨x, below, token, hstack, htoken, -, hturn⟩ := next_eq_ok_iff.1 h
  cases hturn with
  | expand kind predicted =>
    obtain ⟨t, hsymbol, hhead⟩ := Option.bind_eq_some_iff.1 predicted
    obtain ⟨rest, hrules⟩ := List.head?_eq_some_iff.1 hhead
    have hordered : (m.table.rulesAt x t).Pairwise (· ≤ ·) := by
      rw [hm.table_eq]
      exact Grammar.pairwise_rulesAt
    refine ⟨x, below, token, t, hstack, htoken, hsymbol, List.mem_of_head? hhead, ?_⟩
    rw [hrules] at hordered ⊢
    exact List.forall_mem_cons.2 ⟨Nat.le_refl i, (List.pairwise_cons.1 hordered).1⟩

end Machine

namespace Analysis

open Classical in
/-- Cells hold just the rules that are predicted, in their order. The table has a
    row for each non-terminal and a column for each terminal and `$`. A rule stands
    in the rows of other symbols not at all, and in the row of its left side once
    for each reason to predict it. The smaller number stands first, and a parse
    takes the smallest one. Outside the rows and columns there is nothing. -/
theorem rulesAt_exact (text : String) :
    let a := ofText text
    (a.table.rows = a.grammar.nonTerminals ∧
      a.table.columns = a.grammar.terminals ++ [Symbol.endMark]) ∧
    (∀ x ∈ a.table.rows, ∀ t ∈ a.table.columns, ∀ (i : Nat) (r : Rule),
      a.grammar.rules[i]? = some r → (a.table.rulesAt x t).count i =
        if r.left = x then
          (if a.grammar.Begins r.right t then 1 else 0) +
            if a.grammar.Derives r.right [] ∧ t ∈ a.follow.get x then 1 else 0
        else 0) ∧
    (∀ x t, ∀ i ∈ a.table.rulesAt x t, i < a.grammar.rules.length) ∧
    (∀ x t, (a.table.rulesAt x t).Pairwise (· ≤ ·)) ∧
    (∀ input limit fuel trace, a.parse input limit fuel = some trace →
      ∀ s ∈ trace.steps, ∀ i, s.action = .expand i →
        ∃ x below token t, s.stack = x :: below ∧ trace.tokens[s.position]? = some token ∧
          a.grammar.symbol? token = some t ∧ i ∈ a.table.rulesAt x t ∧
          ∀ j ∈ a.table.rulesAt x t, i ≤ j) ∧
    ∀ x t, ¬(x ∈ a.table.rows ∧ t ∈ a.table.columns) → a.table.rulesAt x t = [] := by
  intro a
  have hg : a.grammar.WellFormed := wellFormed_ofText
  have hfirst : a.first = a.grammar.first.1 := first_ofText
  have hfollow : a.follow = (a.grammar.follow a.grammar.first.1).1 := follow_ofText
  have htable : a.table = a.grammar.table a.first a.follow := table_ofText
  have hm : ∀ input, (a.machine input).Standard := standard_ofText text
  clear_value a
  have hrows : a.table.rows = a.grammar.nonTerminals := by rw [htable]; rfl
  have hcolumns : a.table.columns = a.grammar.lookaheads := by rw [htable]; rfl
  refine ⟨⟨hrows, hcolumns⟩, ?count, ?bound, ?order, ?taken, ?outside⟩
  case count =>
    intro x hx t ht i r hr
    rw [hrows] at hx
    rw [hcolumns] at ht
    rw [htable, hfollow, hfirst]
    by_cases hleft : r.left = x
    · rw [if_pos hleft, ← hleft]
      exact Grammar.count_rulesAt_left hg hr ht
    · rw [Grammar.count_rulesAt hx ht hr, if_neg hleft, if_neg hleft]
  case bound =>
    intro x t i hi
    rw [htable] at hi
    exact Grammar.lt_length_of_mem_rulesAt hi
  case order =>
    intro x t
    rw [htable]
    exact Grammar.pairwise_rulesAt
  case taken =>
    intro input limit fuel trace htrace s hs i hi
    obtain ⟨htokens, last, hruns, -⟩ := Machine.runs_of_parse htrace
    obtain ⟨k, hk⟩ := List.getElem?_of_mem hs
    obtain ⟨-, hnext, -⟩ := hruns.visits hk
    rw [hi] at hnext
    rw [htokens]
    exact (hm input).first_of_expand hnext
  case outside =>
    intro x t hcell
    rw [hrows, hcolumns] at hcell
    rw [htable]
    exact Grammar.rulesAt_eq_nil hcell

/-- The second rule has both reasons to stand in the cell for `a`. Of the last two
    rules, which stand in one cell, the parse takes the first. A terminal has no
    row. -/
theorem rulesAt_exact_of_repeated :
    let a := ofText "S -> B a\nB -> A\nA -> a |"
    (a.grammar.rules[1]? = some ⟨3, [5]⟩ ∧ a.table.rulesAt 3 4 = [1, 1] ∧
      a.grammar.Begins [5] 4 ∧ a.grammar.Derives [5] [] ∧ 4 ∈ a.follow.get 3) ∧
    (a.table.rulesAt 5 4 = [2, 3] ∧ ∃ trace, a.parse "a a" (some 10) 0 = some trace ∧
      (⟨[5, 4, 1], 0, .expand 2⟩ : Step) ∈ trace.steps ∧ ∀ j ∈ a.table.rulesAt 5 4, 2 ≤ j) ∧
    a.table.rulesAt 4 4 = [] := by
  intro a
  have hrow : 3 ∈ a.table.rows := by decide +kernel
  have hcolumn : 4 ∈ a.table.columns := by decide +kernel
  have hrule : a.grammar.rules[1]? = some ⟨3, [5]⟩ := by decide +kernel
  have hcell : a.table.rulesAt 3 4 = [1, 1] := by decide +kernel
  have hstep : (⟨[5, 4, 1], 0, .expand 2⟩ : Step) ∈ ((a.machine "a a").parseWithin 10).steps := by
    decide +kernel
  have houtside : ¬(4 ∈ a.table.rows ∧ 4 ∈ a.table.columns) := by decide +kernel
  obtain ⟨-, hcount, -, -, htaken, hnone⟩ := rulesAt_exact "S -> B a\nB -> A\nA -> a |"
  refine ⟨⟨hrule, hcell, ?_⟩, ⟨by decide +kernel, _, rfl, hstep, ?_⟩, hnone 4 4 houtside⟩
  · have htwice := hcount 3 hrow 4 hcolumn 1 ⟨3, [5]⟩ hrule
    rw [hcell, if_pos rfl] at htwice
    -- the count is two, so both reasons hold
    split_ifs at htwice with hbegins hfollows
    · exact ⟨hbegins, hfollows⟩
    all_goals cases htwice
  · obtain ⟨x, below, token, t, hstack, htoken, hsymbol, -, hfirst⟩ :=
      htaken "a a" (some 10) 0 _ rfl _ hstep 2 rfl
    have hcurrent : ((a.machine "a a").parseWithin 10).tokens[0]? = some "a" := rfl
    have hnumber : a.grammar.symbol? "a" = some 4 := by decide +kernel
    obtain ⟨rfl, -⟩ := List.cons.inj hstack
    obtain rfl := Option.some.inj (hcurrent.symm.trans htoken)
    obtain rfl := Option.some.inj (hnumber.symm.trans hsymbol)
    exact hfirst

end Analysis

end Predictive
