import Predictive.Proofs.Conflict
import Predictive.Proofs.Machine.Soundness

/-! # The advice fits the table

    The two tables of a grammar are filled from different data. The LL(1) table
    goes rule by rule, by what can begin the right side and, if that vanishes,
    by what follows the left side. The advice goes by FIRST and FOLLOW of the
    non-terminal alone. They fit together because FIRST is closed under the
    rules and holds nothing but what the rules bring.

    * Where the advice is to skip the token no rule is predicted, since a
      predicted rule would let the token begin or follow the non-terminal
      (`Grammar.rulesAt_eq_nil_of_explore`).
    * Where there is no advice the token begins the non-terminal, by one of its
      rules, and this rule is predicted (`Grammar.rulesAt_ne_nil_of_proceed`).

    Main result: `Analysis.recovery_fits_table`. A parser that stops for want of
    a rule gets advice that lets it go on.
-/

namespace Predictive

namespace Advice

variable {first follow : SymbolSets} {x t : Symbol}

theorem choose_eq_explore_iff :
    choose first follow x t = .explore ↔ t ∉ follow.get x ∧ t ∉ first.get x := by
  unfold choose
  by_cases hfollow : t ∈ follow.get x <;> by_cases hfirst : t ∈ first.get x <;>
    simp [hfollow, hfirst]

theorem choose_eq_proceed_iff :
    choose first follow x t = .proceed ↔ t ∉ follow.get x ∧ t ∈ first.get x := by
  unfold choose
  by_cases hfollow : t ∈ follow.get x <;> by_cases hfirst : t ∈ first.get x <;>
    simp [hfollow, hfirst]

end Advice

namespace Grammar

variable {g : Grammar} {first follow : SymbolSets} {x t : Symbol}

/-- Where nothing but skipping is advised no rule is predicted. -/
theorem rulesAt_eq_nil_of_explore (hfirst : g.FirstClosed first)
    (h : Advice.choose first follow x t = .explore) :
    (g.table first follow).rulesAt x t = [] := by
  obtain ⟨hnotFollow, hnotFirst⟩ := Advice.choose_eq_explore_iff.1 h
  rw [List.eq_nil_iff_forall_not_mem]
  intro i hi
  obtain ⟨-, -, r, hr, rfl, hpredicted⟩ := mem_rulesAt.1 hi
  rcases mem_lookaheadsOf.1 hpredicted with hbegins | ⟨-, hfollows⟩
  · -- what begins the right side begins the left side
    exact hnotFirst (hfirst.rule (List.mem_of_getElem? hr) (mem_firstOfRight.2 (.inl hbegins)))
  · exact hnotFollow hfollows

/-- What can begin a non-terminal predicts one of its rules. -/
theorem rulesAt_ne_nil_of_proceed (hg : g.WellFormed) (hx : x ∈ g.nonTerminals)
    (ht : t ∈ g.lookaheads) (h : Advice.choose g.first.1 follow x t = .proceed) :
    (g.table g.first.1 follow).rulesAt x t ≠ [] := by
  have hkind := mem_nonTerminals.1 hx
  obtain ⟨-, hfirst⟩ := Advice.choose_eq_proceed_iff.1 h
  have hbegins : g.Begins [x] t := by
    rcases (mem_first_iff hg hkind).1 hfirst with ⟨-, hbegins⟩ | ⟨hepsilon, -⟩
    · exact hbegins
    · exact absurd hepsilon (hg.ne_epsilon_of_mem_lookaheads ht)
  obtain ⟨i, r, hr, hleft, hright⟩ := exists_rule_of_begins hg ht hkind hbegins
  have hi : i ∈ (g.table g.first.1 follow).rulesAt x t :=
    mem_rulesAt.2 ⟨hx, ht, r, hr, hleft, mem_lookaheadsOf.2 (.inl hright)⟩
  exact List.ne_nil_of_mem hi

theorem get?_recovery (hx : x ∈ g.nonTerminals) (ht : t ∈ g.lookaheads) :
    (g.recovery first follow).get? x t = some (Advice.choose first follow x t) := by
  unfold recovery
  rw [Grid.get?_tabulate, if_pos ⟨hx, ht⟩]

end Grammar

/-- Where a rule is missing the advice is to go on without the non-terminal or
    without the token. -/
theorem Machine.advice_of_noRule {m : Machine} (hm : m.Standard) {c : Configuration}
    {x t : Symbol} {token : String} (h : m.next c = .error (.rejected (.noRule x token)))
    (htoken : m.grammar.symbol? token = some t) (ht : t ∈ m.grammar.lookaheads) :
    let recovery := m.grammar.recovery m.grammar.first.1 (m.grammar.follow m.grammar.first.1).1
    recovery.get? x t = some .extract ∨ recovery.get? x t = some .explore := by
  intro recovery
  cases refusal_of_rejected h with
  | noRule _ _ kind unpredicted =>
    have hx := Grammar.mem_nonTerminals.2 kind
    have hempty : m.table.rulesAt x t = [] := by
      unfold ruleFor? at unpredicted
      rw [htoken, Option.bind_some] at unpredicted
      exact List.head?_eq_none_iff.1 unpredicted
    rw [hm.table_eq] at hempty
    rw [Grammar.get?_recovery hx ht]
    cases hadvice : Advice.choose m.grammar.first.1 (m.grammar.follow m.grammar.first.1).1 x t with
    | extract => exact .inl rfl
    | explore => exact .inr rfl
    | proceed =>
      exact absurd hempty (Grammar.rulesAt_ne_nil_of_proceed hm.wellFormed hx ht hadvice)

namespace Analysis

/-- The advice table has the rows and columns of the LL(1) table, and on each of
    them `EP` stands beside an empty cell and `-` beside a cell with a rule.
    Where an input is rejected for want of a rule, on a token that the table has
    a column for, the advice is `EXT` or `EP`. -/
theorem recovery_fits_table (text : String) :
    let a := ofText text
    a.recovery.rows = a.table.rows ∧ a.recovery.columns = a.table.columns ∧
    (∀ x ∈ a.grammar.nonTerminals, ∀ t ∈ a.table.columns, ∃ advice rules,
      a.recovery.get? x t = some advice ∧ a.table.get? x t = some rules ∧
        (advice = .explore → rules = []) ∧ (advice = .proceed → rules ≠ [])) ∧
    (∀ input limit fuel trace x token t, a.parse input limit fuel = some trace →
      trace.status = .finished (.rejected (.noRule x token)) →
      a.grammar.symbol? token = some t → t ∈ a.grammar.terminals ∨ t = Symbol.endMark →
      a.recovery.get? x t = some .extract ∨ a.recovery.get? x t = some .explore) := by
  intro a
  have hg : a.grammar.WellFormed := wellFormed_ofText
  have htable : a.table =
      a.grammar.table a.grammar.first.1 (a.grammar.follow a.grammar.first.1).1 := by
    rw [← follow_ofText, ← first_ofText]
    exact table_ofText
  have hrecovery : a.recovery =
      a.grammar.recovery a.grammar.first.1 (a.grammar.follow a.grammar.first.1).1 := by
    rw [← follow_ofText, ← first_ofText]
    exact recovery_ofText
  have hm : ∀ input, (a.machine input).Standard := standard_ofText text
  -- how the analysis was computed does not matter any more
  clear_value a
  rw [htable, hrecovery]
  refine ⟨rfl, rfl, ?_, ?_⟩
  · intro x hx t ht
    refine ⟨_, _, Grammar.get?_recovery hx ht, Grammar.get?_table hx ht, ?_, ?_⟩
    · exact Grammar.rulesAt_eq_nil_of_explore (Grammar.firstClosed_first hg)
    · exact Grammar.rulesAt_ne_nil_of_proceed hg hx ht
  · intro input limit fuel trace x token t hparse hstatus htoken ht
    obtain ⟨-, last, -, hverdict⟩ := Machine.runs_of_parse hparse
    exact Machine.advice_of_noRule (hm input) (hverdict _ hstatus) htoken
      (Grammar.mem_lookaheads.2 ht)

/-- In `S -> A b` with `A -> a S |` the symbols are `S` (2), `A` (3), `b` (4) and
    `a` (5). For `A` and `$` the token is to be skipped, and no rule is predicted.
    For `S` and `a` there is no advice, and a rule is predicted. After `a` the input
    is at its end, where no sentence begins but one may end. -/
theorem recovery_fits_table_of_end :
    let a := ofText "S -> A b\nA -> a S |"
    let trace : Trace :=
      { tokens := ["a", "$"]
        steps := [⟨[2, 1], 0, .expand 0⟩, ⟨[3, 4, 1], 0, .expand 1⟩, ⟨[5, 2, 4, 1], 0, .advance 5⟩]
        status := .finished (.rejected (.noRule 2 "$")) }
    (3 ∈ a.grammar.nonTerminals ∧ 1 ∈ a.table.columns ∧
      a.recovery.get? 3 1 = some .explore ∧ a.table.get? 3 1 = some []) ∧
    (2 ∈ a.grammar.nonTerminals ∧ 5 ∈ a.table.columns ∧
      a.recovery.get? 2 5 = some .proceed ∧
      ∃ rules, a.table.get? 2 5 = some rules ∧ rules ≠ [] ∧ rules = [0]) ∧
    (a.parse "a" (some 9) 0 = some trace ∧ a.grammar.symbol? "$" = some 1 ∧
      a.recovery.get? 2 1 = some .extract) := by
  intro a trace
  obtain ⟨-, -, hcells, hrejected⟩ := recovery_fits_table "S -> A b\nA -> a S |"
  have hA : 3 ∈ a.grammar.nonTerminals := by decide
  have hS : 2 ∈ a.grammar.nonTerminals := by decide
  have hmark : 1 ∈ a.table.columns := by decide
  have ha : 5 ∈ a.table.columns := by decide
  have hexplore : a.recovery.get? 3 1 = some .explore := by decide
  have hproceed : a.recovery.get? 2 5 = some .proceed := by decide
  have hrule : a.table.get? 2 5 = some [0] := by decide
  have hparse : a.parse "a" (some 9) 0 = some trace := by decide
  have hsymbol : a.grammar.symbol? "$" = some 1 := by decide
  have hnot : a.recovery.get? 2 1 ≠ some .explore := by decide
  -- beside the advice to skip the token
  obtain ⟨advice, rules, hadvice, hcell, hempty, -⟩ := hcells 3 hA 1 hmark
  rw [hempty (Option.some.inj (hadvice.symm.trans hexplore))] at hcell
  -- where there is no advice
  obtain ⟨advice, rules, hadvice, hcell', -, hsome⟩ := hcells 2 hS 5 ha
  have hne : rules ≠ [] := hsome (Option.some.inj (hadvice.symm.trans hproceed))
  have hrules : rules = [0] := Option.some.inj (hcell'.symm.trans hrule)
  have hskip := hrejected "a" (some 9) 0 trace 2 "$" 1 hparse rfl hsymbol (.inr rfl)
  exact ⟨⟨hA, hmark, hexplore, hcell⟩, ⟨hS, ha, hproceed, rules, hcell', hne, hrules⟩, hparse,
    hsymbol, hskip.resolve_right hnot⟩

end Analysis

end Predictive
