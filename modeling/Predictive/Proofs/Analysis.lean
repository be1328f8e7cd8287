import Predictive.Query
import Predictive.Proofs.Grammar.Numbering

/-! # The parts of an analysis

    What an analysis of a text is made of, part by part, and which questions
    about it have an answer. The analysis computes its sets once and hands them
    on; here each part is said by itself (`ofReading_eq`).
-/

namespace Predictive.Analysis

/-- The parts of an analysis, each said by itself. -/
theorem ofReading_eq (r : Reading) : ofReading r =
    { grammar := r.grammar
      skipped := r.skipped
      first := r.grammar.first.1
      firstSweeps := r.grammar.first.2
      follow := (r.grammar.follow r.grammar.first.1).1
      followSweeps := (r.grammar.follow r.grammar.first.1).2
      table := r.grammar.table r.grammar.first.1 (r.grammar.follow r.grammar.first.1).1
      recovery :=
        r.grammar.recovery r.grammar.first.1 (r.grammar.follow r.grammar.first.1).1 } := by
  unfold ofReading
  generalize r.grammar.first = first
  simp only

variable {text : String}

theorem grammar_ofText : (ofText text).grammar = (Reading.ofText text).grammar := by
  unfold ofText
  rw [ofReading_eq]

theorem first_ofText : (ofText text).first = (ofText text).grammar.first.1 := by
  unfold ofText
  rw [ofReading_eq]

theorem follow_ofText :
    (ofText text).follow = ((ofText text).grammar.follow (ofText text).grammar.first.1).1 := by
  unfold ofText
  rw [ofReading_eq]

theorem table_ofText :
    (ofText text).table = (ofText text).grammar.table (ofText text).first (ofText text).follow := by
  unfold ofText
  rw [ofReading_eq]

theorem recovery_ofText : (ofText text).recovery
    = (ofText text).grammar.recovery (ofText text).first (ofText text).follow := by
  unfold ofText
  rw [ofReading_eq]

/-- The grammar of an analysed text is well-formed. -/
theorem wellFormed_ofText : (ofText text).grammar.WellFormed := by
  rw [grammar_ofText]
  exact Grammar.wellFormed_ofText text

/-- A question about a symbol of the grammar has an answer. -/
theorem ask_of_lt_size {α : Type} {a : Analysis} {x : Symbol} (h : x < a.grammar.size)
    (answer : α) : a.ask x answer = .ok answer := by
  unfold ask
  rw [guarded_eq_ok_iff]
  unfold Grammar.symbolFault?
  exact ⟨Fault.ofIndex?_eq_none.2 h, rfl⟩

theorem firstOf_of_lt_size {a : Analysis} {x : Symbol} (h : x < a.grammar.size) :
    a.firstOf x = .ok (a.first.get x) := ask_of_lt_size h _

theorem followOf_of_lt_size {a : Analysis} {x : Symbol} (h : x < a.grammar.size) :
    a.followOf x = .ok (a.follow.get x) := ask_of_lt_size h _

end Predictive.Analysis
