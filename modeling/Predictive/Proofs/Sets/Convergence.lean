import Mathlib.Data.List.Dedup
import Predictive.Log
import Predictive.Proofs.Sets.Follow
import Predictive.Proofs.Sets.Passes

/-! # FIRST and FOLLOW converge in linearly many passes

    Which rules give a symbol to FIRST depends on who holds that symbol and on
    what can vanish (`Grammar.mem_firstOfRight_congr`). So `ε` spreads by itself,
    in at most one pass for each left side of a rule, and from then on every other
    symbol does, in as many passes again. Which occurrences give a symbol to
    FOLLOW depends on who holds that symbol alone, so here one pass for each
    non-terminal is enough.

    Main result: `Analysis.sweeps_le`.
-/

namespace Predictive

variable {g : Grammar} {a b : SymbolSets} {t : Symbol} {xs : List Symbol}

/-! ### What decides about a symbol -/

namespace SymbolSets

theorem vanishes_ofSequence_congr (h : SameAt Symbol.epsilon a b) :
    (a.ofSequence xs).2 = true ↔ (b.ofSequence xs).2 = true := by
  induction xs with
  | nil => exact Iff.rfl
  | cons x xs ih =>
    rw [vanishes_ofSequence_cons, vanishes_ofSequence_cons, ih, vanishing_iff, vanishing_iff,
      h.mem_iff]

theorem mem_ofSequence_congr (h : SameAt Symbol.epsilon a b) (ht : SameAt t a b) :
    t ∈ (a.ofSequence xs).1 ↔ t ∈ (b.ofSequence xs).1 := by
  induction xs with
  | nil => exact Iff.rfl
  | cons x xs ih =>
    rw [mem_ofSequence_cons, mem_ofSequence_cons, ih, vanishing_iff, vanishing_iff, h.mem_iff,
      ht.mem_iff]

end SymbolSets

namespace Grammar

theorem mem_firstOfRight_congr (h : SymbolSets.SameAt Symbol.epsilon a b)
    (ht : SymbolSets.SameAt t a b) : t ∈ firstOfRight a xs ↔ t ∈ firstOfRight b xs := by
  rw [mem_firstOfRight, mem_firstOfRight, SymbolSets.mem_ofSequence_congr h ht,
    SymbolSets.vanishes_ofSequence_congr h]

theorem mem_followAt_congr {first : SymbolSets} {o : Occurrence} (ht : SymbolSets.SameAt t a b) :
    t ∈ followAt first a o ↔ t ∈ followAt first b o := by
  rw [mem_followAt, mem_followAt, ht.mem_iff]

/-! ### The passes over a grammar -/

/-- The left sides of the rules, each once. -/
def defined (g : Grammar) : List Symbol := (g.rules.map Rule.left).dedup

/-- A pass over the rules for FIRST. -/
def firstPass (g : Grammar) : SymbolSets → SymbolSets × Bool :=
  SymbolSets.pass Rule.left (fun sets r => firstOfRight sets r.right) g.rules

/-- A pass over the occurrences for FOLLOW. -/
def followPass (g : Grammar) (first : SymbolSets) : SymbolSets → SymbolSets × Bool :=
  SymbolSets.pass Occurrence.symbol (fun sets o => followAt first sets o) g.occurrences

theorem firstPass_eq (g : Grammar) (sets : SymbolSets) :
    g.firstPass sets = (g.firstSweep sets, decide (g.firstSweep sets ≠ sets)) :=
  SymbolSets.pass_eq g.rules sets

theorem followPass_eq (g : Grammar) (first sets : SymbolSets) : g.followPass first sets =
    (g.followSweep first sets, decide (g.followSweep first sets ≠ sets)) :=
  SymbolSets.pass_eq g.occurrences sets

/-- Twice as many sweeps as left sides are enough for FIRST. -/
theorem firstSweep_iterate (g : Grammar) (sets : SymbolSets) :
    g.firstSweep (g.firstSweep^[g.defined.length + g.defined.length] sets) =
      g.firstSweep^[g.defined.length + g.defined.length] sets := by
  have htargets : ∀ r ∈ g.rules, r.left ∈ g.defined.toFinset := by
    intro r hr
    rw [List.mem_toFinset]
    exact List.mem_dedup.2 (List.mem_map_of_mem hr)
  have hepsilon : SymbolSets.Autonomous Rule.left (fun sets r => firstOfRight sets r.right) g.rules
      (fun _ => True) Symbol.epsilon :=
    ⟨fun _ _ _ _ => trivial, fun _ _ _ _ hsame _ _ => (mem_firstOfRight_congr hsame hsame).1⟩
  exact SymbolSets.sweep_iterate_eq_of_first hepsilon
    (fun _ _ _ _ _ hsame ht _ _ => (mem_firstOfRight_congr hsame ht).1) trivial htargets
    (List.toFinset_card_le _)

/-- As many sweeps as non-terminals are enough for FOLLOW. -/
theorem followSweep_iterate (g : Grammar) (first sets : SymbolSets) :
    g.followSweep first ((g.followSweep first)^[g.nonTerminals.length] sets) =
      (g.followSweep first)^[g.nonTerminals.length] sets := by
  have htargets : ∀ o ∈ g.occurrences, o.symbol ∈ g.nonTerminals.toFinset := by
    intro o ho
    rw [List.mem_toFinset, mem_nonTerminals]
    exact (mem_occurrences.1 ho).1
  have hspreads : ∀ t, SymbolSets.Autonomous Occurrence.symbol (followAt first) g.occurrences
      (fun _ => True) t :=
    fun _ => ⟨fun _ _ _ _ => trivial, fun _ _ _ _ hsame _ _ => (mem_followAt_congr hsame).1⟩
  exact SymbolSets.sweep_iterate_eq hspreads trivial htargets (List.toFinset_card_le _)

/-- The bound on the sweeps is not reached. -/
theorem WellFormed.lt_sweepBound (hg : g.WellFormed) :
    g.defined.length + g.defined.length < g.sweepBound ∧ g.nonTerminals.length < g.sweepBound := by
  have hdefined : g.defined.length ≤ g.size := by
    have hsub : g.defined ⊆ List.range g.size := by
      intro x hx
      obtain ⟨r, hr, rfl⟩ := List.mem_map.1 (List.mem_dedup.1 hx)
      exact List.mem_range.2 (hg.lt_size_of_left hr)
    have hle := ((List.nodup_dedup _).subperm hsub).length_le
    rwa [List.length_range] at hle
  have hnonTerminals : g.nonTerminals.length ≤ g.size := by
    have hle := List.length_filter_le (fun x => g.kind x = .nonTerminal) (List.range g.size)
    rwa [List.length_range] at hle
  -- there are `ε` and `$`, so twice the size is no more than its square
  have hsize : 2 ≤ g.size := hg.endMark_lt_size
  have hsquare : 2 * g.size ≤ g.size * g.size := Nat.mul_le_mul_right _ hsize
  show _ < g.size * g.size + 1 ∧ _ < g.size * g.size + 1
  omega

end Grammar

/-! ### Answers about a text -/

namespace Analysis

variable {text : String}

theorem firstSweeps_ofText : (ofText text).firstSweeps = (ofText text).grammar.first.2 := by
  unfold ofText
  rw [ofReading_eq]

theorem followSweeps_ofText : (ofText text).followSweeps =
    ((ofText text).grammar.follow (ofText text).grammar.first.1).2 := by
  unfold ofText
  rw [ofReading_eq]

/-- Of the records of an analysis only two are about its sets. -/
theorem filter_sets_log (a : Analysis) :
    (Log.ofAnalysis a).filter (fun r => r.component = .sets) =
      [Log.convergence "FIRST" a.firstSweeps, Log.convergence "FOLLOW" a.followSweeps] := by
  have hother : ∀ {α : Type} (xs : List α) (record : α → Log.Record) (c : Log.Component),
      (∀ x, (record x).component = c) → c ≠ .sets →
      (xs.map record).filter (fun r => r.component = .sets) = [] := by
    intro α xs record c hcomponent hc
    rw [List.filter_eq_nil_iff]
    intro r hr
    obtain ⟨x, -, rfl⟩ := List.mem_map.1 hr
    simpa [hcomponent] using hc
  have hskipped := hother a.skipped Log.skippedLine .reading (fun _ => rfl) (by decide)
  have hundefined := hother a.grammar.undefined (Log.undefinedSymbol a.grammar) .analysis
    (fun _ => rfl) (by decide)
  have hconflicts := hother a.table.conflicts (Log.conflict a.grammar) .table (fun _ => rfl)
    (by decide)
  unfold Log.ofAnalysis
  rw [List.filter_append, List.filter_append, List.filter_append, hskipped, hundefined, hconflicts]
  rfl

/-- The loops that compute the sets of a grammar text come to their end, and soon:
    FIRST after at most two passes for each left side of a rule and one more,
    FOLLOW after at most one pass for each non-terminal and one more. These are
    the numbers of passes that the log reports. -/
theorem sweeps_le (text : String) :
    Loop (ofText text).grammar.firstPass (ofText text).grammar.firstSeed
        (ofText text).firstSweeps (ofText text).first ∧
      (ofText text).firstSweeps ≤ 2 * (ofText text).grammar.defined.length + 1 ∧
      Loop ((ofText text).grammar.followPass (ofText text).first)
        (ofText text).grammar.followSeed (ofText text).followSweeps (ofText text).follow ∧
      (ofText text).followSweeps ≤ (ofText text).grammar.nonTerminals.length + 1 ∧
      (Log.ofAnalysis (ofText text)).filter (fun r => r.component = .sets) =
        [Log.convergence "FIRST" (ofText text).firstSweeps,
          Log.convergence "FOLLOW" (ofText text).followSweeps] := by
  have hfuel := (@wellFormed_ofText text).lt_sweepBound
  obtain ⟨hfirst, hfirstle⟩ := loop_saturate (ofText text).grammar.firstPass_eq
    ((ofText text).grammar.firstSweep_iterate (ofText text).grammar.firstSeed) hfuel.1
  obtain ⟨hfollow, hfollowle⟩ := loop_saturate
    ((ofText text).grammar.followPass_eq (ofText text).grammar.first.1)
    ((ofText text).grammar.followSweep_iterate (ofText text).grammar.first.1
      (ofText text).grammar.followSeed) hfuel.2
  rw [firstSweeps_ofText, followSweeps_ofText, first_ofText, follow_ofText]
  refine ⟨hfirst, ?_, hfollow, hfollowle, ?_⟩
  · show (saturate _ _ _).2 ≤ _
    omega
  · rw [filter_sets_log, firstSweeps_ofText, followSweeps_ofText]

/-- With one left side both bounds can be reached. -/
example : (ofText "S -> S a |").firstSweeps = 3 ∧ (ofText "S -> S a |").followSweeps = 2 := by
  decide

end Analysis

end Predictive
