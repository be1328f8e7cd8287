import Predictive.Checked.Report
import Predictive.Proofs.Analysis
import Predictive.Proofs.Checked.Tables
import Predictive.Proofs.TableText

/-! # Everything is shown without a fault

    Whether columns can be aligned depends on the lengths of the rows alone
    (`align_guarded`), and whether a trace can be shown depends on its numbers
    alone (`traceText_eq`), so there are no other faults than the ones that
    `TableText.render` and `Grammar.showTrace` report.

    For a well-formed grammar everything else is found: the rules of a cell and
    of a conflict are rules of the grammar, and the members of its sets are
    symbols of the grammar.
-/

namespace Predictive.Checked

open Text.Columns (unevenFault? unevenFault?_eq_none)

/-! ### Aligned columns -/

variable {rows : List (List String)} {row : List String} {widths : List Nat} {j n : Nat}

theorem width_guarded (rows : List (List String)) (j : Nat) : width rows j =
    guarded (rows.findSome? fun row => Fault.ofIndex? row.length j)
      (Text.Columns.width rows j) := by
  have hcells : ∀ row ∈ rows, (do let cell ← read row j; return cell.length) =
      guarded (Fault.ofIndex? row.length j) ((row[j]?.map String.length).getD 0) := by
    intro row _
    apply read_bind
    intro cell hcell
    rw [hcell]
    rfl
  unfold width
  rw [mapM_guarded hcells]
  exact guarded_map _ _ _

theorem line_guarded (hwidths : ∀ w ∈ widths, w ≤ widest) : line widths row =
    guarded ((List.range row.length).findSome? (Fault.ofIndex? widths.length))
      (Text.Columns.line widths row) := by
  have hcells : ∀ cj ∈ row.zipIdx, (do let width ← read widths cj.2; pad width cj.1) =
      guarded (Fault.ofIndex? widths.length cj.2)
        (Text.Columns.padLeft (widths.getD cj.2 0) cj.1) := by
    intro cj _
    apply read_bind
    -- a width that is found is not too large
    intro w hw
    have hle := hwidths w (List.mem_of_getElem? hw)
    unfold pad
    rw [List.getD_eq_getElem?_getD, hw]
    exact guarded_eq_ok (Fault.ofIndex?_eq_none.2 (by omega)) _
  have hplaces : row.zipIdx.findSome? (fun cj => Fault.ofIndex? widths.length cj.2) =
      (List.range row.length).findSome? (Fault.ofIndex? widths.length) := by
    rw [List.range_eq_range', ← List.zipIdx_map_snd 0 row, List.findSome?_map]
    rfl
  unfold line
  rw [← hplaces]
  refine (congrArg (· >>= _) (mapM_guarded hcells)).trans ?_
  exact guarded_map _ _ _

/-- Rows that are not too wide are aligned unless they are uneven. -/
theorem align_guarded (hn : (rows.head?.map List.length).getD 0 = n)
    (hwidths : ∀ j < n, Text.Columns.width rows j ≤ widest) :
    align rows = guarded (unevenFault? n rows) (Text.Columns.align n rows) := by
  have hcolumns := mapM_guarded fun j (_ : j ∈ List.range n) => width_guarded rows j
  have hbound : ∀ w ∈ (List.range n).map (Text.Columns.width rows), w ≤ widest := by
    intro w hw
    obtain ⟨j, hj, rfl⟩ := List.mem_map.1 hw
    exact hwidths j (List.mem_range.1 hj)
  have hlines := mapM_guarded fun row (_ : row ∈ rows) => @line_guarded row _ hbound
  rw [List.length_map, List.length_range] at hlines
  unfold align
  rw [hn, hcolumns]
  apply guarded_bind
  rw [hlines]
  exact guarded_map _ _ _

theorem align_eq (hn : (rows.head?.map List.length).getD 0 = n)
    (hcells : ∀ row ∈ rows, row.length = n ∧ ∀ cell ∈ row, cell.length ≤ widest) :
    align rows = .ok (Text.Columns.align n rows) := by
  have hwidths : ∀ j < n, Text.Columns.width rows j ≤ widest :=
    fun j _ => Text.Columns.width_le (fun row hrow => (hcells row hrow).2) j
  rw [align_guarded hn hwidths]
  exact guarded_eq_ok (unevenFault?_eq_none fun row hrow => (hcells row hrow).1) _

/-! ### Tables -/

variable {g : Grammar} {first follow : SymbolSets} {x : Symbol} {i : Nat} {rules : List Nat}

/-- A table as text has a fault just if it cannot be aligned. -/
theorem tablePlain_eq (t : TableText)
    (hwidths : ∀ j < t.columns, Text.Columns.width t.cells j ≤ widest) :
    tablePlain t = t.render := align_guarded rfl hwidths

theorem nameOf_nonTerminal (hx : x ∈ g.nonTerminals) : nameOf g x = .ok (g.name x) :=
  nameOf_eq (Grammar.lt_size_of_mem_nonTerminals hx)

theorem namesOf_lookaheads (hg : g.WellFormed) :
    namesOf g g.lookaheads = .ok (g.names g.lookaheads) :=
  namesOf_eq fun _ => hg.lt_size_of_mem_lookaheads

theorem ruleCell_eq (hg : g.WellFormed) (hi : i < g.rules.length) :
    ruleCell g i = .ok ((g.rules[i]?.map g.ruleCell).getD "") := by
  have here := List.getElem?_eq_getElem hi
  have hr : g.rules[i] ∈ g.rules := List.getElem_mem hi
  unfold ruleCell
  rw [read_of_getElem? here, ok_bind, here, phrase_eq (hg.lt_size_of_mem_shown hr),
    nameOf_eq (hg.lt_size_of_left hr)]
  rfl

theorem cellText_eq (hg : g.WellFormed) (hrules : ∀ i ∈ rules, i < g.rules.length) :
    cellText g rules = .ok (g.cellText rules) := by
  unfold cellText Grammar.cellText
  split
  · rfl
  · rw [mapM_eq_ok fun i hi => ruleCell_eq hg (hrules i hi)]
    rfl

theorem tableRow_eq (hg : g.WellFormed) (hx : x ∈ g.nonTerminals) :
    tableRow g (g.table first follow) x = .ok (g.name x,
      g.lookaheads.map fun u => g.cellText ((g.table first follow).rulesAt x u)) := by
  have hcells : ∀ u ∈ g.lookaheads, (do
      let rules ← rulesAt (g.table first follow) x u
      cellText g rules) = .ok (g.cellText ((g.table first follow).rulesAt x u)) := by
    intro u _
    have hcell : rulesAt (g.table first follow) x u = .ok _ := rulesAt_eq
    rw [hcell, ok_bind]
    exact cellText_eq hg fun _ => Grammar.lt_length_of_mem_rulesAt
  unfold tableRow
  refine (congrArg (· >>= _) (mapM_eq_ok hcells)).trans ?_
  rw [ok_bind, nameOf_nonTerminal hx]
  rfl

theorem tableText_eq (hg : g.WellFormed) :
    tableText g (g.table first follow) = .ok (g.tableText (g.table first follow)) := by
  have hshown : g.tableText (g.table first follow) = _ :=
    (congrArg (TableText.ofGrid g g.cellText) Grammar.table_eq_tabulate).trans
      (TableText.ofGrid_tabulate g g.cellText)
  have hrows : (g.table first follow).rows.mapM (tableRow g (g.table first follow)) = .ok _ :=
    mapM_eq_ok fun x hx => tableRow_eq hg hx
  have hheader : namesOf g (g.table first follow).columns = .ok _ := namesOf_lookaheads hg
  unfold tableText
  rw [hrows, ok_bind, hheader, hshown]
  rfl

theorem recoveryRow_eq (hx : x ∈ g.nonTerminals) : recoveryRow g (g.recovery first follow) x
    = .ok (g.name x, g.lookaheads.map fun u => (Advice.choose first follow x u).label) := by
  have hrow : rowOf (g.recovery first follow) x = .ok ((g.recovery first follow).row? x) :=
    rowOf_eq
  unfold recoveryRow
  rw [hrow, ok_bind, nameOf_nonTerminal hx, ok_bind]
  unfold Grammar.recovery
  rw [Grid.row?_tabulate, if_pos hx, Option.getD_some, List.map_map]
  rfl

theorem recoveryText_eq (hg : g.WellFormed) :
    recoveryText g (g.recovery first follow) = .ok (g.recoveryText (g.recovery first follow)) := by
  have hshown : g.recoveryText (g.recovery first follow) = _ :=
    TableText.ofGrid_tabulate g Advice.label
  have hrows : (g.recovery first follow).rows.mapM (recoveryRow g (g.recovery first follow))
      = .ok _ := mapM_eq_ok fun x hx => recoveryRow_eq hx
  have hheader : namesOf g (g.recovery first follow).columns = .ok _ := namesOf_lookaheads hg
  unfold recoveryText
  rw [hrows, ok_bind, hheader, hshown]
  rfl

/-! ### Conflicts -/

theorem conflictText_eq (hg : g.WellFormed) {c : Conflict}
    (hc : c ∈ (g.table first follow).conflicts) :
    conflictText g c = .ok (.ofConflict g c) := by
  obtain ⟨⟨hx, ht, hrules⟩, -⟩ := Grammar.mem_conflicts_iff.1 hc
  have hlt : ∀ i ∈ c.rules, i < g.rules.length := by
    rw [hrules]
    exact fun _ => Grammar.lt_length_of_mem_rulesAt
  unfold conflictText
  rw [nameOf_nonTerminal hx, ok_bind, nameOf_eq (hg.lt_size_of_mem_lookaheads ht), ok_bind,
    mapM_eq_ok fun i hi => ruleTextAt_eq hg (hlt i hi)]
  rfl

theorem conflictTexts_eq (hg : g.WellFormed) : conflictTexts g (g.table first follow)
    = .ok ((g.table first follow).conflicts.map (.ofConflict g)) := by
  have hfound : conflicts (g.table first follow) = .ok _ := conflicts_eq
  unfold conflictTexts
  rw [hfound, ok_bind]
  exact mapM_eq_ok fun _ hc => conflictText_eq hg hc

/-! ### Grammars -/

theorem setText_eq {sets : SymbolSets} (h : sets.Bounded g.size) (hx : x < g.size) :
    setText g sets x = .ok (g.setText sets x) := by
  have hread : read sets x = .ok (sets.get x) := read_get (by rwa [h.length_eq])
  have hmembers : ∀ y ∈ Grammar.displayed (sets.get x), y < g.size := by
    intro y hy
    apply h.lt (x := x)
    unfold Grammar.displayed at hy
    rcases List.mem_append.1 hy with hy | hy
    · exact SymbolSet.mem_toList.1 (List.mem_of_mem_filter hy)
    · exact of_decide_eq_true (List.mem_filter.1 hy).2
  unfold setText
  rw [hread, ok_bind, nameOf_eq hx, ok_bind, namesOf_eq hmembers]
  rfl

theorem startName_eq (hg : g.WellFormed) : startName g = .ok (g.start?.map g.name) := by
  unfold startName
  cases hstart : g.start? with
  | none => rfl
  | some start =>
    simp only
    rw [nameOf_nonTerminal (Grammar.mem_nonTerminals.2 (hg.kind_start hstart))]
    rfl

theorem grammarText_eq (hg : g.WellFormed) (hfirst : first.Bounded g.size)
    (hfollow : follow.Bounded g.size) :
    grammarText g first follow = .ok (g.report first follow) := by
  have hnonTerminals : ∀ x ∈ g.nonTerminals, x < g.size :=
    fun _ => Grammar.lt_size_of_mem_nonTerminals
  have hterminals : ∀ x ∈ g.terminals, x < g.size :=
    fun x hx => hg.lt_size_of_mem_lookaheads (List.mem_append_left _ hx)
  have hboth : ∀ x ∈ g.nonTerminals ++ g.terminals, x < g.size := by
    intro x hx
    rcases List.mem_append.1 hx with hx | hx
    · exact hnonTerminals x hx
    · exact hterminals x hx
  have hrules : ∀ ri ∈ g.rules.zipIdx, ruleLine g ri.1 ri.2 =
      .ok ⟨Grammar.ruleName ri.2, g.name ri.1.left, g.names ri.1.shown⟩ := by
    intro ri hri
    have hr : ri.1 ∈ g.rules := List.mem_of_getElem? (List.mem_zipIdx_iff_getElem?.1 hri)
    unfold ruleLine
    rw [nameOf_nonTerminal (Grammar.mem_nonTerminals.2 (hg.kind_left hr)), ok_bind,
      namesOf_eq (hg.lt_size_of_mem_shown hr)]
    rfl
  have hothers : namesOf g g.otherNonTerminals = .ok _ :=
    namesOf_eq fun x hx => hnonTerminals x (List.mem_of_mem_filter hx)
  have hundefined : namesOf g g.undefined = .ok _ :=
    namesOf_eq fun x hx => hnonTerminals x (List.mem_of_mem_filter hx)
  unfold grammarText
  rw [hothers, ok_bind, namesOf_eq hterminals, ok_bind, startName_eq hg, ok_bind]
  refine (congrArg (· >>= _) (mapM_eq_ok hrules)).trans ?_
  rw [ok_bind, mapM_eq_ok fun x hx => setText_eq hfirst (hboth x hx), ok_bind,
    mapM_eq_ok fun x hx => setText_eq hfollow (hnonTerminals x hx), ok_bind, hundefined]
  rfl

/-! ### Analyses -/

theorem analysis_eq (text : String) : analysis text = .ok (Analysis.ofText text) := by
  have hg : (Reading.ofText text).grammar.WellFormed := Grammar.wellFormed_ofText text
  have hfirst := Grammar.bounded_first hg
  have hfollow := Grammar.bounded_follow hg
  unfold analysis Analysis.ofText
  rw [Analysis.ofReading_eq]
  simp only
  rw [first_eq hg, ok_bind, follow_eq hg, ok_bind,
    table_eq hg (seeded_first hg) hfollow.length_eq, ok_bind,
    recovery_eq hfirst.length_eq hfollow.length_eq]
  rfl

theorem conflictRecord_eq (hg : g.WellFormed) {c : Conflict}
    (hc : c ∈ (g.table first follow).conflicts) :
    conflictRecord g c = .ok (Log.conflict g c) := by
  unfold conflictRecord
  rw [conflictText_eq hg hc]
  rfl

theorem logOfAnalysis_eq {a : Analysis} (hg : a.grammar.WellFormed)
    (htable : a.table = a.grammar.table first follow) :
    logOfAnalysis a = .ok (Log.ofAnalysis a) := by
  have hundefined : ∀ x ∈ a.grammar.undefined,
      undefinedSymbol a.grammar x = .ok (Log.undefinedSymbol a.grammar x) := by
    intro x hx
    unfold undefinedSymbol
    rw [nameOf_nonTerminal (List.mem_of_mem_filter hx)]
    rfl
  have hfound : conflicts a.table = .ok a.table.conflicts := by
    rw [htable]
    exact conflicts_eq
  have hconflicts : ∀ c ∈ a.table.conflicts,
      conflictRecord a.grammar c = .ok (Log.conflict a.grammar c) := by
    rw [htable]
    exact fun _ => conflictRecord_eq hg
  unfold logOfAnalysis
  rw [mapM_eq_ok hundefined, ok_bind, hfound, ok_bind, mapM_eq_ok hconflicts]
  rfl

/-! ### Traces -/

variable {t : Trace} {s : Step}

theorem actionText_guarded (hg : g.WellFormed) (action : Action) :
    actionText g action = guarded (action.fault? g) (g.actionText action) := by
  cases action with
  | expand rule => exact ruleTextAt_guarded hg rule
  | advance terminal =>
    unfold actionText
    simp only
    rw [nameOf_guarded]
    exact guarded_map _ _ _

theorem stepText_guarded (hg : g.WellFormed) (t : Trace) (s : Step) :
    stepText g t s = guarded (s.fault? g t) (g.stepText t s) := by
  unfold stepText
  rw [phrase_guarded]
  apply guarded_bind
  apply guarded_bind
  rw [actionText_guarded hg]
  exact guarded_map _ _ _

theorem statusText_guarded (g : Grammar) (status : Status) :
    statusText g status = guarded (status.fault? g) (g.statusText status) := by
  cases status with
  | gaveUp limit => rfl
  | finished verdict =>
    cases verdict with
    | accepted => rfl
    | rejected reason =>
      cases reason <;> (unfold statusText; simp only; rw [nameOf_guarded]; exact guarded_map _ _ _)

/-- A trace is shown unless one of its numbers is out of range. -/
theorem traceText_eq (hg : g.WellFormed) (t : Trace) : traceText g t = g.showTrace t := by
  unfold traceText
  rw [mapM_guarded fun s _ => stepText_guarded hg t s]
  apply guarded_bind
  rw [statusText_guarded]
  exact guarded_map _ _ _

/-- The steps of a trace always fill their three columns. -/
theorem tracePlain_eq {t : TraceText} (h : ∀ s ∈ t.steps,
      s.stack.length ≤ widest ∧ s.input.length ≤ widest ∧ s.rule.length ≤ widest) :
    tracePlain t = .ok t.plain := by
  have hcells : ∀ row ∈ ["Stack", "Input", "Rule"] :: t.steps.map fun s =>
      [s.stack, s.input, s.rule], row.length = 3 ∧ ∀ cell ∈ row, cell.length ≤ widest := by
    intro row hrow
    rcases List.mem_cons.1 hrow with rfl | hrow
    · decide
    · obtain ⟨s, hs, rfl⟩ := List.mem_map.1 hrow
      simpa using h s hs
  unfold tracePlain
  rw [align_eq rfl hcells]
  rfl

theorem stepRecord_eq (h : s.fault? g t = none) : stepRecord g t s = .ok (Log.step g t s) := by
  have hrecord : stepRecord g t s = guarded
      (g.symbolsFault? s.stack.reverse <|> t.remainingFault? s.position) (Log.step g t s) := by
    unfold stepRecord
    rw [phrase_guarded]
    apply guarded_bind
    exact guarded_map _ _ _
  rw [hrecord]
  apply guarded_eq_ok
  unfold Step.fault? at h
  cases hstack : g.symbolsFault? s.stack.reverse with
  | some _ =>
    rw [hstack] at h
    cases h
  | none =>
    rw [hstack] at h
    cases hposition : t.remainingFault? s.position with
    | some _ =>
      rw [hposition] at h
      cases h
    | none => rfl

end Predictive.Checked
