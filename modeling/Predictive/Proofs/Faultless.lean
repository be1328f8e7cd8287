import Predictive.Proofs.Checked.Machine
import Predictive.Proofs.Checked.Report

/-! # Nothing that comes from a text has a fault

    Everything that is made of a grammar text and of an input is made without a
    look-up that finds nothing: the definitions that make each look-up in its
    place (`Checked`) come to the same results as those that have a default for
    what is not there. So no default is ever used.

    A value built by hand can have a fault. What comes from a text has none,
    since the grammar is well-formed, and since a parse keeps its invariant
    (`Machine.Intact`): all that a step names has been looked up by then.

    Main result: `Analysis.ofText_without_fault`.
-/

namespace Predictive

variable {m : Machine} {c : Configuration} {t : Trace} {s : Step} {words : List String}

/-! ### Faults of a record -/

namespace Machine

/-- A step of a parse names only what there is. -/
theorem fault?_step (hm : m.Standard) (h : m.Intact s.place)
    (hnext : m.next s.place = .ok s.action) (htokens : t.tokens = m.tokens) :
    s.fault? m.grammar t = none := by
  have hstack : m.grammar.symbolsFault? s.stack.reverse = none :=
    Checked.symbolsFault?_eq_none fun x hx => h.symbols x (List.mem_reverse.1 hx)
  have hposition : t.remainingFault? s.position = none := by
    unfold Trace.remainingFault?
    rw [htokens]
    exact Fault.ofStart?_eq_none.2 (Nat.le_of_lt h.position)
  have haction : s.action.fault? m.grammar = none := by
    have hmove := h.move hm hnext
    generalize s.action = action at hmove
    cases hmove with
    | expand rule => exact Fault.ofIndex?_eq_none.2 (List.getElem?_eq_some_iff.1 rule).1
    | advance kind ne_endMark stack =>
      refine Fault.ofIndex?_eq_none.2 (h.symbols _ ?_)
      rw [stack]
      exact List.mem_cons_self
  unfold Step.fault?
  rw [hstack, hposition, haction]
  rfl

/-- A verdict names only what there is. -/
theorem fault?_verdict (hm : m.Standard) (h : m.Intact c) {verdict : Verdict}
    (hnext : m.next c = .error verdict) : (Status.finished verdict).fault? m.grammar = none := by
  cases verdict with
  | accepted => rfl
  | rejected reason =>
    cases refusal_of_rejected hnext with
    | noRule stack | mismatch stack =>
      -- the symbol was on top of the stack
      refine Fault.ofIndex?_eq_none.2 (h.symbols _ ?_)
      rw [stack]
      exact List.mem_cons_self
    | epsilon | exhausted => exact absurd hnext (h.next_ne_unexpected hm _)

/-- The record of a run has no fault, nor has any of its steps. -/
theorem fault?_record (hm : m.Standard) (hwords : m.tokens = words ++ [Symbol.endMarkName])
    (htokens : t.tokens = m.tokens) (hruns : m.Runs m.initial t.steps c)
    (hverdict : ∀ verdict, t.status = .finished verdict → m.next c = .error verdict) :
    (∀ s ∈ t.steps, s.fault? m.grammar t = none) ∧ t.fault? m.grammar = none := by
  have hinitial := intact_initial hm hwords
  have hsteps : ∀ s ∈ t.steps, s.fault? m.grammar t = none := by
    intro s hs
    obtain ⟨i, hi⟩ := List.getElem?_of_mem hs
    obtain ⟨hbefore, hnext, -⟩ := hruns.visits hi
    exact fault?_step hm (hinitial.runs hm hwords hbefore) hnext htokens
  have hstatus : t.status.fault? m.grammar = none := by
    have hlast := hinitial.runs hm hwords hruns
    cases hfinished : t.status with
    | gaveUp limit => rfl
    | finished verdict => exact fault?_verdict hm hlast (hverdict verdict hfinished)
  refine ⟨hsteps, ?_⟩
  unfold Trace.fault?
  rw [List.findSome?_eq_none_iff.2 hsteps, hstatus]
  rfl

end Machine

/-! ### What is made without a fault -/

open Checked (widest)

/-- The reports of an analysis are made without a fault. -/
structure Analysis.Faultless (a : Analysis) : Prop where
  log : Checked.logOfAnalysis a = .ok (Log.ofAnalysis a)
  grammarText : Checked.grammarText a.grammar a.first a.follow = .ok a.grammarText
  tableText : Checked.tableText a.grammar a.table = .ok a.tableText
  recoveryText : Checked.recoveryText a.grammar a.recovery = .ok a.recoveryText
  conflictTexts : Checked.conflictTexts a.grammar a.table = .ok a.conflictTexts
  /-- In both tables every row has as many cells as the header. -/
  rectangular : a.tableText.Rectangular ∧ a.recoveryText.Rectangular
  render : a.tableText.render = .ok a.tableText.plain ∧
    a.recoveryText.render = .ok a.recoveryText.plain
  /-- Both tables are aligned if their cells are not longer than a column can be
      wide. -/
  plain : ∀ t ∈ [a.tableText, a.recoveryText],
    (∀ row ∈ t.cells, ∀ cell ∈ row, cell.length ≤ widest) → Checked.tablePlain t = .ok t.plain

/-- The reports of a record and its tree are made without a fault. -/
structure Trace.Faultless (g : Grammar) (t : Trace) : Prop where
  log : Checked.logOfTrace g t = .ok (Log.ofTrace g t)
  text : Checked.traceText g t = .ok (g.traceText t)
  showTrace : g.showTrace t = .ok (g.traceText t)
  /-- The steps are aligned if no cell is longer than a column can be wide. -/
  plain : (∀ s ∈ (g.traceText t).steps,
      s.stack.length ≤ widest ∧ s.input.length ≤ widest ∧ s.rule.length ≤ widest) →
    Checked.tracePlain (g.traceText t) = .ok (g.traceText t).plain
  tree : Checked.treeOf g t = .ok (DerivationTree.ofTrace g t).toOption
  /-- There is a tree wherever the input is accepted and the grammar has a start
      symbol. -/
  exists_tree : t.accepted = true → g.start? ≠ none →
    ∃ tree, DerivationTree.ofTrace g t = .ok tree
  /-- The leaves are collected in as many visits as there are nodes. -/
  leaves : ∀ tree, DerivationTree.ofTrace g t = .ok tree →
    Checked.leaves tree = .ok (some tree.leaves)

/-- The record of any parse is faultless. -/
theorem Trace.faultless_of_parse (hm : m.Standard)
    (hwords : m.tokens = words ++ [Symbol.endMarkName]) {limit : Option Nat} {fuel : Nat}
    (ht : m.parse limit fuel = some t) : t.Faultless m.grammar := by
  have hg := hm.wellFormed
  obtain ⟨htokens, last, hruns, hverdict⟩ := Machine.runs_of_parse ht
  obtain ⟨hsteps, hfault⟩ := Machine.fault?_record hm hwords htokens hruns hverdict
  have hshown : m.grammar.showTrace t = .ok (m.grammar.traceText t) :=
    Checked.guarded_eq_ok hfault _
  constructor
  · exact Checked.mapM_eq_ok fun s hs => Checked.stepRecord_eq (hsteps s hs)
  · rw [Checked.traceText_eq hg]
    exact hshown
  · exact hshown
  · exact Checked.tracePlain_eq
  · exact Checked.treeOf_eq hm hwords hruns
  · intro haccepted hsome
    obtain ⟨start, hstart⟩ := Option.ne_none_iff_exists'.1 hsome
    obtain ⟨t', hgrow⟩ := Checked.exists_grow_root hm hwords hruns hstart
    exact ⟨⟨t'.nodes⟩, DerivationTree.ofTrace_eq_ok haccepted hstart hgrow⟩
  · exact fun tree => Checked.leaves_eq

namespace Analysis

/-- An analysis is faultless if its sets mention only symbols of its grammar and
    its tables are made from these sets. -/
theorem faultless_of_bounded {a : Analysis} (hg : a.grammar.WellFormed)
    (hfirst : a.first.Bounded a.grammar.size) (hfollow : a.follow.Bounded a.grammar.size)
    (htable : a.table = a.grammar.table a.first a.follow)
    (hrecovery : a.recovery = a.grammar.recovery a.first a.follow) : a.Faultless := by
  have hrectangular : a.tableText.Rectangular ∧ a.recoveryText.Rectangular := by
    unfold tableText recoveryText
    rw [htable, hrecovery]
    exact ⟨TableText.rectangular_ofGrid _ _, TableText.rectangular_ofGrid _ _⟩
  have hrender : ∀ t ∈ [a.tableText, a.recoveryText], t.render = .ok t.plain := by
    intro t ht
    apply Checked.guarded_eq_ok
    rcases List.mem_pair.1 ht with rfl | rfl
    · exact hrectangular.1.fault?_eq_none
    · exact hrectangular.2.fault?_eq_none
  constructor
  · exact Checked.logOfAnalysis_eq hg htable
  · exact Checked.grammarText_eq hg hfirst hfollow
  · unfold tableText
    rw [htable]
    exact Checked.tableText_eq hg
  · unfold recoveryText
    rw [hrecovery]
    exact Checked.recoveryText_eq hg
  · unfold conflictTexts
    rw [htable]
    exact Checked.conflictTexts_eq hg
  · exact hrectangular
  · exact ⟨hrender _ List.mem_cons_self, hrender _ (List.mem_cons_of_mem _ List.mem_cons_self)⟩
  · intro t ht hcells
    rw [Checked.tablePlain_eq t fun j _ => Text.Columns.width_le hcells j]
    exact hrender t ht

theorem faultless_ofText (text : String) : (ofText text).Faultless := by
  have hg : (ofText text).grammar.WellFormed := wellFormed_ofText
  have hfirst : (ofText text).first.Bounded (ofText text).grammar.size := by
    rw [first_ofText]
    exact Grammar.bounded_first hg
  have hfollow : (ofText text).follow.Bounded (ofText text).grammar.size := by
    rw [follow_ofText]
    exact Grammar.bounded_follow hg
  exact faultless_of_bounded hg hfirst hfollow table_ofText recovery_ofText

/-- The record of a parse by the machine of an analysis is faultless. -/
theorem faultless_parseWithin {a : Analysis} {input : String}
    (hm : (a.machine input).Standard) (limit : Nat) :
    ((a.machine input).parseWithin limit).Faultless a.grammar := by
  have ht : (a.machine input).parse (some limit) 0 = some _ := rfl
  exact Trace.faultless_of_parse hm tokens_machine ht

/-- Nothing that is derived from a grammar text and an input looks for what is
    not there. With every look-up in its place the analysis of the text is the
    one that the library makes, and so are its records in the log, its grammar,
    its tables and its conflicts as text; both tables as text are rectangles. The
    parse of any input under any limit is the one that the library makes, and so
    are its records in the log, its trace as text, its tree and the leaves of the
    tree; there is a tree wherever the input is accepted and the grammar has a
    start symbol. Texts are aligned in columns of at most 65535 characters. -/
theorem ofText_without_fault (text : String) :
    Checked.analysis text = .ok (ofText text) ∧ (ofText text).Faultless ∧
      ∀ (input : String) (limit : Nat),
        Checked.parseWithin ((ofText text).machine input) limit
            = .ok (((ofText text).machine input).parseWithin limit) ∧
          (((ofText text).machine input).parseWithin limit).Faultless (ofText text).grammar := by
  refine ⟨Checked.analysis_eq text, faultless_ofText text, ?_⟩
  intro input limit
  have hm : ((ofText text).machine input).Standard := standard_ofText text input
  constructor
  · exact Checked.parseWithin_eq hm tokens_machine limit
  · exact faultless_parseWithin hm limit

/-- In `S -> a S b |` the words `a b` are accepted after four steps. The table is
    aligned, and the leaves of the tree are found. -/
theorem ofText_without_fault_of_nested :
    let a := ofText "S -> a S b |"
    let m := a.machine "a b"
    let t := m.parseWithin 4
    (a.grammar.start? = some 2 ∧ t.accepted = true) ∧
      Checked.analysis "S -> a S b |" = .ok a ∧ Checked.parseWithin m 4 = .ok t ∧
      Checked.tablePlain a.tableText = .ok "  |       a |   b |   $\nS | S→a S b | S→ε | S→ε" ∧
      ∃ tree, DerivationTree.ofTrace a.grammar t = .ok tree ∧
        Checked.leaves tree = .ok (some ["a", "ε", "b"]) := by
  intro a m t
  obtain ⟨hanalysis, hreports, hparses⟩ := ofText_without_fault "S -> a S b |"
  obtain ⟨hparse, hrecord⟩ := hparses "a b" 4
  have hstart : a.grammar.start? = some 2 := by decide
  have haccepted : t.accepted = true := by decide
  have hcells : ∀ row ∈ a.tableText.cells, ∀ cell ∈ row, cell.length ≤ Checked.widest := by decide
  have hplain := hreports.plain a.tableText List.mem_cons_self hcells
  have hshown : a.tableText.plain = "  |       a |   b |   $\nS | S→a S b | S→ε | S→ε" := by decide
  have hsome : a.grammar.start? ≠ none := by decide
  obtain ⟨tree, htree⟩ := hrecord.exists_tree haccepted hsome
  have htree' : DerivationTree.ofTrace a.grammar t = .ok
      ⟨[⟨"S", [1, 2, 3]⟩, ⟨"a", []⟩, ⟨"S", [4]⟩, ⟨"b", []⟩, ⟨"ε", []⟩]⟩ := by decide
  obtain rfl := Except.ok.inj (htree.symm.trans htree')
  exact ⟨⟨hstart, haccepted⟩, hanalysis, hparse, hshown ▸ hplain, _, htree, hrecord.leaves _ htree⟩

end Analysis

end Predictive
