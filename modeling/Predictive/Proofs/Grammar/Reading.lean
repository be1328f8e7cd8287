import Predictive.Grammar.Reading

/-! # What a grammar text is read as

    Which lines are rules, and which productions a text has, each said as an
    equivalence. Proofs about grammar texts start here and do not open the
    reader again.
-/

namespace Predictive

variable {line : List Char} {text : List Char} {r : RuleLine}

/-- A line is a rule just if an arrow cuts it and the part before the arrow is a
    left side. -/
theorem RuleLine.read_eq_ok_iff : RuleLine.read line = .ok r ↔
    ∃ before after, RuleLine.sides? line = some (before, after) ∧
      RuleLine.leftSide before = .ok r.left ∧
      r.alternatives = (Text.splitWhere (· == '|') after).map Phrase.names := by
  unfold RuleLine.read
  cases hsides : RuleLine.sides? line with
  | none => simp
  | some sides =>
    obtain ⟨before, after⟩ := sides
    cases hleft : RuleLine.leftSide before with
    | error reason => simp [hleft, bind, Except.bind]
    | ok left =>
      simp only [hleft, bind, Except.bind, pure, Except.pure, Except.ok.injEq, Option.some.injEq,
        Prod.mk.injEq]
      constructor
      · rintro rfl
        exact ⟨before, after, ⟨rfl, rfl⟩, by simp [hleft], rfl⟩
      · rintro ⟨_, _, ⟨rfl, rfl⟩, hsame, halternatives⟩
        rw [hleft] at hsame
        obtain ⟨left', alternatives⟩ := r
        simp_all

/-- What an error says does not matter for what is right. -/
theorem mapError_eq_ok_iff {outcome : Except SkipReason RuleLine} {f : SkipReason → SkippedLine} :
    outcome.mapError f = .ok r ↔ outcome = .ok r := by
  cases outcome with
  | error reason =>
    show Except.error (f reason) = .ok r ↔ Except.error reason = .ok r
    simp
  | ok r' =>
    show Except.ok r' = .ok r ↔ Except.ok r' = .ok r
    simp

namespace Reading

/-- A line of a text is a rule just if it is one without the blanks at its ends. -/
theorem line?_eq_some_ok_iff {i : Nat} :
    line? i line = some (.ok r) ↔ RuleLine.read (Text.trim line) = .ok r := by
  unfold line?
  simp only
  split
  · next hempty =>
    -- a blank line is passed over, and has no arrow
    have hnone : RuleLine.read [] = .error .missingArrow := rfl
    simp [List.isEmpty_iff.1 hempty, hnone]
  · rw [Option.some.injEq, mapError_eq_ok_iff]

theorem ok_mem_lines_iff : .ok r ∈ lines text ↔
    ∃ line ∈ Text.splitWhere (· == '\n') text, RuleLine.read (Text.trim line) = .ok r := by
  unfold lines
  rw [List.mem_filterMap]
  constructor
  · rintro ⟨⟨line, i⟩, hmem, hline⟩
    exact ⟨line, List.fst_mem_of_mem_zipIdx hmem, line?_eq_some_ok_iff.1 hline⟩
  · rintro ⟨line, hmem, hread⟩
    obtain ⟨i, hi⟩ := List.getElem?_of_mem hmem
    exact ⟨(line, i), List.mem_zipIdx_iff_getElem?.2 hi, line?_eq_some_ok_iff.2 hread⟩

/-- The rules among what lines are read as. -/
theorem mem_rules {outcomes : List (Except SkippedLine RuleLine)} :
    r ∈ outcomes.filterMap Except.toOption ↔ .ok r ∈ outcomes := by
  rw [List.mem_filterMap]
  constructor
  · rintro ⟨outcome, hmem, hok⟩
    cases outcome with
    | error => cases hok
    | ok r' =>
      obtain rfl := Option.some.inj hok
      exact hmem
  · intro hmem
    exact ⟨.ok r, hmem, rfl⟩

/-- The productions of a text are those of its rules. -/
theorem mem_productions {q : Production} :
    q ∈ productions text ↔ ∃ r, .ok r ∈ lines text ∧ q ∈ r.productions := by
  unfold productions
  rw [List.mem_flatMap]
  exact exists_congr fun r => and_congr_left fun _ => mem_rules

end Reading

end Predictive
