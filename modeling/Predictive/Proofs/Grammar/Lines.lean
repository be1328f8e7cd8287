import Predictive.Proofs.Grammar.Reordering

/-! # What becomes of each line

    A line of a grammar text is blank, or no rule, or a rule, and which of these
    it is depends on the line alone. A line that is no rule gives an entry of the
    report and nothing else (`Reading.exists_skipped_iff`). A line that is a rule
    gives one production for each of its alternatives, and no entry
    (`Reading.productionsOf_eq`). So the grammar stays the same when all other
    lines are deleted (`Reading.ofText_of_retained`).

    Main result: `Reading.lines_accounted_for`.
-/

namespace Predictive

namespace Reading

variable {text other : String} {line : List Char} {i : Nat} {s : SkippedLine} {r : RuleLine}

/-! ### One line -/

/-- The lines of a text as they stand, blank ones too. -/
def textLines (text : String) : List (List Char) := Text.splitWhere (· == '\n') text.toList

/-- The rule that a line is, if it is one. -/
def ruleOf? (line : List Char) : Option RuleLine := (RuleLine.read (Text.trim line)).toOption

/-- The productions that a line adds. -/
def productionsOf (line : List Char) : List Production :=
  (ruleOf? line).toList.flatMap RuleLine.productions

theorem ruleOf?_eq_some_iff : ruleOf? line = some r ↔ RuleLine.read (Text.trim line) = .ok r := by
  unfold ruleOf?
  cases RuleLine.read (Text.trim line) <;> simp [Except.toOption]

/-- A blank line is no rule. -/
theorem ruleOf?_of_blank (h : Text.trim line = []) : ruleOf? line = none := by
  unfold ruleOf?
  rw [h]
  rfl

theorem toOption_line? (i : Nat) (line : List Char) :
    (line? i line).bind Except.toOption = ruleOf? line := by
  by_cases hempty : Text.trim line = []
  · simp [line?, hempty, ruleOf?_of_blank hempty]
  · cases hread : RuleLine.read (Text.trim line) <;>
      simp [line?, hempty, ruleOf?, hread, Except.mapError, Except.toOption]

/-- An entry of the report holds the number of its line, counted from one, and
    its text without the blanks at its ends. -/
theorem line?_eq_some_error_iff : line? i line = some (.error s) ↔
    Text.trim line ≠ [] ∧ RuleLine.read (Text.trim line) = .error s.reason ∧
      s.line = i + 1 ∧ s.content = String.ofList (Text.trim line) := by
  obtain ⟨number, content, reason⟩ := s
  by_cases hempty : Text.trim line = []
  · simp [line?, hempty]
  · cases hread : RuleLine.read (Text.trim line) with
    | error fault =>
      simp only [line?, List.isEmpty_iff, hempty, hread, Except.mapError, if_false,
        Option.some.injEq, Except.error.injEq, SkippedLine.mk.injEq]
      constructor
      · rintro ⟨rfl, rfl, rfl⟩
        exact ⟨hempty, rfl, rfl, rfl⟩
      · rintro ⟨-, rfl, rfl, rfl⟩
        exact ⟨rfl, rfl, rfl⟩
    | ok r => simp [line?, hempty, hread, Except.mapError]

/-- A rule adds one production more than its right side has bars. -/
theorem productionsOf_eq (h : RuleLine.read (Text.trim line) = .ok r) :
    ∃ before after, RuleLine.sides? (Text.trim line) = some (before, after) ∧
      RuleLine.leftSide before = .ok r.left ∧
      productionsOf line = (Text.splitWhere (· == '|') after).map (⟨r.left, Phrase.names ·⟩) ∧
      (productionsOf line).length = after.count '|' + 1 := by
  obtain ⟨before, after, hsides, hleft, halternatives⟩ := RuleLine.read_eq_ok_iff.1 h
  have hproductions : productionsOf line
      = (Text.splitWhere (· == '|') after).map (⟨r.left, Phrase.names ·⟩) := by
    simp [productionsOf, ruleOf?_eq_some_iff.2 h, RuleLine.productions, halternatives]
  refine ⟨before, after, hsides, hleft, hproductions, ?_⟩
  rw [hproductions, List.length_map, Text.length_splitWhere, List.count_eq_countP]

theorem productionsOf_eq_nil (h : ruleOf? line = none) : productionsOf line = [] := by
  simp [productionsOf, h]

/-! ### The report -/

theorem skipped_eq (text : String) : (ofText text).skipped =
    (textLines text).zipIdx.filterMap fun x => (line? x.2 x.1).bind skipped? := by
  show ((textLines text).zipIdx.filterMap fun x => line? x.2 x.1).filterMap skipped? = _
  rw [List.filterMap_filterMap]

theorem bind_skipped?_eq_some_iff {outcome : Option (Except SkippedLine RuleLine)} :
    outcome.bind skipped? = some s ↔ outcome = some (.error s) := by
  rcases outcome with _ | _ | _ <;> simp [skipped?]

theorem mem_skipped_iff : s ∈ (ofText text).skipped ↔
    ∃ i line, (textLines text)[i]? = some line ∧ line? i line = some (.error s) := by
  rw [skipped_eq, List.mem_filterMap]
  constructor
  · intro h
    obtain ⟨x, hx, hline⟩ := h
    exact ⟨x.2, x.1, List.mem_zipIdx_iff_getElem?.1 hx, bind_skipped?_eq_some_iff.1 hline⟩
  · intro h
    obtain ⟨i, line, hline, hread⟩ := h
    exact ⟨(line, i), List.mk_mem_zipIdx_iff_getElem?.2 hline, bind_skipped?_eq_some_iff.2 hread⟩

/-- The entries are in the order of their lines. -/
theorem pairwise_skipped (text : String) :
    (ofText text).skipped.Pairwise fun s s' => s.line < s'.line := by
  rw [skipped_eq]
  have hnumbers : (textLines text).zipIdx.Pairwise fun a b => a.2 < b.2 := by
    rw [← List.pairwise_map (f := Prod.snd), List.zipIdx_map_snd]
    exact List.pairwise_lt_range' 1
  refine hnumbers.filterMap _ ?_
  intro x y hlt s hs s' hs'
  obtain ⟨-, -, hnumber, -⟩ := line?_eq_some_error_iff.1 (bind_skipped?_eq_some_iff.1 hs)
  obtain ⟨-, -, hnumber', -⟩ := line?_eq_some_error_iff.1 (bind_skipped?_eq_some_iff.1 hs')
  omega

/-- A line is reported just if it is neither blank nor a rule. -/
theorem exists_skipped_iff (h : (textLines text)[i]? = some line) :
    (∃ s ∈ (ofText text).skipped, s.line = i + 1) ↔
      Text.trim line ≠ [] ∧ ruleOf? line = none := by
  constructor
  · intro hreported
    obtain ⟨s, hs, hnumber⟩ := hreported
    obtain ⟨j, other, hother, hread⟩ := mem_skipped_iff.1 hs
    obtain ⟨hempty, herror, hline, -⟩ := line?_eq_some_error_iff.1 hread
    obtain rfl : j = i := by omega
    obtain rfl : other = line := Option.some.inj (hother.symm.trans h)
    exact ⟨hempty, by simp [ruleOf?, herror, Except.toOption]⟩
  · intro hnorule
    obtain ⟨hempty, hnone⟩ := hnorule
    cases hread : RuleLine.read (Text.trim line) with
    | ok r => simp [ruleOf?_eq_some_iff.2 hread] at hnone
    | error reason =>
      let s : SkippedLine := ⟨i + 1, String.ofList (Text.trim line), reason⟩
      have hline : line? i line = some (.error s) :=
        line?_eq_some_error_iff.2 ⟨hempty, hread, rfl, rfl⟩
      exact ⟨s, mem_skipped_iff.2 ⟨i, line, h, hline⟩, rfl⟩

/-! ### The rules -/

/-- The rules of a text are those of its lines, one by one. -/
theorem rules_eq (text : String) :
    (lines text.toList).filterMap Except.toOption = (textLines text).filterMap ruleOf? := by
  show ((textLines text).zipIdx.filterMap fun x => line? x.2 x.1).filterMap Except.toOption = _
  have hline : (fun x : List Char × Nat => (line? x.2 x.1).bind Except.toOption)
      = ruleOf? ∘ Prod.fst := funext fun x => toOption_line? x.2 x.1
  rw [List.filterMap_filterMap, hline, ← List.filterMap_map, List.zipIdx_map_fst]

/-- The rules of the grammar are what the lines add, in order. -/
theorem map_production_ofText (text : String) :
    (ofText text).grammar.rules.map (ofText text).grammar.production
      = (textLines text).flatMap productionsOf := by
  have hgrammar : (ofText text).grammar = .ofProductions (productions text.toList) := rfl
  rw [hgrammar, Grammar.map_production_ofProductions]
  unfold productions productionsOf
  rw [rules_eq, List.filterMap_eq_flatMap_toList, List.flatMap_assoc]

/-! ### Deleting lines -/

/-- The lines that are left when all blank and all reported lines are deleted. -/
def retained (text : String) : List (List Char) :=
  ((textLines text).zipIdx.filter fun x =>
    !(Text.trim x.1).isEmpty && !(ofText text).skipped.any (·.line == x.2 + 1)).map Prod.fst

/-- The text of the lines that are left. -/
def retainedText (text : String) : String := "\n".intercalate ((retained text).map String.ofList)

theorem retained_eq (text : String) :
    retained text = (textLines text).filter fun line => (ruleOf? line).isSome := by
  have hline : ∀ x ∈ (textLines text).zipIdx,
      (!(Text.trim x.1).isEmpty && !(ofText text).skipped.any (·.line == x.2 + 1))
        = ((fun line => (ruleOf? line).isSome) ∘ Prod.fst) x := by
    intro x hx
    have hreported : (ofText text).skipped.any (·.line == x.2 + 1) = true ↔
        Text.trim x.1 ≠ [] ∧ ruleOf? x.1 = none := by
      rw [← exists_skipped_iff (List.mem_zipIdx_iff_getElem?.1 hx)]
      simp
    show _ = (ruleOf? x.1).isSome
    by_cases hempty : Text.trim x.1 = []
    · simp [hempty, ruleOf?_of_blank hempty]
    · cases hrule : ruleOf? x.1 with
      | none => simp [hreported.2 ⟨hempty, hrule⟩]
      | some r =>
        have hunreported : (ofText text).skipped.any (·.line == x.2 + 1) = false := by
          rw [← Bool.not_eq_true, hreported]
          simp [hrule]
        simp [hempty, hunreported]
  unfold retained
  rw [List.filter_congr hline, ← List.filter_map, List.zipIdx_map_fst]

/-- A text with the retained lines, and blank lines anywhere between them, has
    the same grammar, entered in the same order, and nothing to report. -/
theorem ofText_of_retained
    (h : (textLines other).filter (fun line => !(Text.trim line).isEmpty) = retained text) :
    ofText other = ⟨(ofText text).grammar, []⟩ ∧ Register.ofText other = Register.ofText text := by
  rw [retained_eq] at h
  have hrules : (textLines other).filterMap ruleOf? = (textLines text).filterMap ruleOf? := by
    have hfiltered := congrArg (List.filterMap ruleOf?) h
    rw [List.filterMap_filter, List.filterMap_filter] at hfiltered
    have hblank : (fun line => if (!(Text.trim line).isEmpty) = true then ruleOf? line else none)
        = ruleOf? := by
      funext line
      by_cases hempty : Text.trim line = []
      · simp [hempty, ruleOf?_of_blank hempty]
      · simp [hempty]
    have hnorule : (fun line => if (ruleOf? line).isSome = true then ruleOf? line else none)
        = ruleOf? := by
      funext line
      cases ruleOf? line <;> simp
    rwa [hblank, hnorule] at hfiltered
  have hgrammar : (ofText other).grammar = (ofText text).grammar := by
    show Grammar.ofProductions (productions _) = Grammar.ofProductions (productions _)
    unfold productions
    rw [rules_eq, rules_eq, hrules]
  have hskipped : (ofText other).skipped = [] := by
    rw [List.eq_nil_iff_forall_not_mem]
    intro s hs
    obtain ⟨i, line, hline, hread⟩ := mem_skipped_iff.1 hs
    obtain ⟨hempty, herror, -⟩ := line?_eq_some_error_iff.1 hread
    -- the line is not blank, so it is one of the retained lines, and these are rules
    have hmem : line ∈ (textLines other).filter fun line => !(Text.trim line).isEmpty :=
      List.mem_filter.2 ⟨List.mem_of_getElem? hline, by simp [hempty]⟩
    rw [h] at hmem
    have hrule := (List.mem_filter.1 hmem).2
    simp [ruleOf?, herror, Except.toOption] at hrule
  refine ⟨?_, ?_⟩
  · rw [← hgrammar, ← hskipped]
  · rw [Register.ofText_eq, Register.ofText_eq, hgrammar]

/-- The text of the retained lines has these lines. -/
theorem filter_textLines_retainedText (text : String) :
    (textLines (retainedText text)).filter (fun line => !(Text.trim line).isEmpty)
      = retained text := by
  have hnewline : "\n".toList = ['\n'] := rfl
  have hchars : ((retained text).map String.ofList).map String.toList = retained text := by simp
  have hlines : ∀ line ∈ retained text, line ∈ textLines text ∧ Text.trim line ≠ [] := by
    intro line hline
    rw [retained_eq] at hline
    obtain ⟨hmem, hrule⟩ := List.mem_filter.1 hline
    refine ⟨hmem, ?_⟩
    intro hempty
    simp [ruleOf?_of_blank hempty] at hrule
  unfold retainedText textLines
  rw [String.toList_intercalate, hnewline, hchars]
  by_cases hnil : retained text = []
  · -- an empty text is one blank line
    rw [hnil]
    rfl
  · rw [Text.splitWhere_intercalate (by decide) hnil]
    · rw [List.filter_eq_self]
      intro line hline
      simp [(hlines line hline).2]
    · intro line hline c hc
      have hmem := (hlines line hline).1
      exact Text.not_mem_of_mem_splitWhere (p := (· == '\n')) hmem hc

/-! ### Whole texts -/

/-- What becomes of the `i`-th line of a text, counted from zero. A line that is
    not blank is either reported or adds productions. -/
inductive Fate (text : String) (i : Nat) (line : List Char) : Prop where
  | blank (empty : Text.trim line = []) (unreported : ∀ s ∈ (ofText text).skipped, s.line ≠ i + 1)
    (adds : productionsOf line = [])
  | reported (nonempty : Text.trim line ≠ [])
    (reported : ∃ s ∈ (ofText text).skipped, s.line = i + 1) (adds : productionsOf line = [])
  | rule {left : String} {before after : List Char} (nonempty : Text.trim line ≠ [])
    (unreported : ∀ s ∈ (ofText text).skipped, s.line ≠ i + 1)
    (cut : RuleLine.sides? (Text.trim line) = some (before, after))
    (name : RuleLine.leftSide before = .ok left)
    (adds : productionsOf line = (Text.splitWhere (· == '|') after).map (⟨left, Phrase.names ·⟩))
    (count : (productionsOf line).length = after.count '|' + 1)

theorem fate (h : (textLines text)[i]? = some line) : Fate text i line := by
  have hreported := exists_skipped_iff h
  by_cases hempty : Text.trim line = []
  · refine .blank hempty ?_ (productionsOf_eq_nil (ruleOf?_of_blank hempty))
    exact fun s hs hnumber => (hreported.1 ⟨s, hs, hnumber⟩).1 hempty
  · cases hrule : ruleOf? line with
    | none => exact .reported hempty (hreported.2 ⟨hempty, hrule⟩) (productionsOf_eq_nil hrule)
    | some r =>
      obtain ⟨before, after, hcut, hname, hadds, hcount⟩ :=
        productionsOf_eq (ruleOf?_eq_some_iff.1 hrule)
      refine .rule hempty ?_ hcut hname hadds hcount
      intro s hs hnumber
      have hnone := (hreported.1 ⟨s, hs, hnumber⟩).2
      rw [hrule] at hnone
      cases hnone

/-- Every line of a text is accounted for. The rules of the grammar are those that
    the lines add, in order; a line that is not blank is reported, or it adds one
    rule more than its right side has bars. The report is in the order of the
    lines, and each entry holds the number of its line, counted from one, and its
    text without the blanks at its ends. If all blank and all reported lines are
    deleted, the text that is left has the same grammar, with the same register,
    and nothing to report; this is so also if blank lines stay in it. -/
theorem lines_accounted_for (text : String) :
    ((ofText text).grammar.rules.map (ofText text).grammar.production
        = (textLines text).flatMap productionsOf ∧
      ∀ i line, (textLines text)[i]? = some line → Fate text i line) ∧
    ((ofText text).skipped.Pairwise (fun s s' => s.line < s'.line) ∧
      ∀ s ∈ (ofText text).skipped, ∃ i line, (textLines text)[i]? = some line ∧
        Text.trim line ≠ [] ∧ RuleLine.read (Text.trim line) = .error s.reason ∧
        s.line = i + 1 ∧ s.content = String.ofList (Text.trim line)) ∧
    (ofText (retainedText text) = ⟨(ofText text).grammar, []⟩ ∧
      Register.ofText (retainedText text) = Register.ofText text) ∧
    ∀ other, (textLines other).filter (fun line => !(Text.trim line).isEmpty) = retained text →
      ofText other = ⟨(ofText text).grammar, []⟩ ∧
        Register.ofText other = Register.ofText text := by
  refine ⟨⟨map_production_ofText text, fun _ _ h => fate h⟩, ⟨pairwise_skipped text, ?_⟩,
    ofText_of_retained (filter_textLines_retainedText text), fun _ h => ofText_of_retained h⟩
  intro s hs
  obtain ⟨i, line, hline, hread⟩ := mem_skipped_iff.1 hs
  exact ⟨i, line, hline, line?_eq_some_error_iff.1 hread⟩

/-- A text with a rule of two alternatives, a reserved left side, a line without an
    arrow and a rule that vanishes. The second line is blank. -/
theorem lines_accounted_for_of_faults :
    let text := "S -> a | B\n \n$ -> c\n B C \nS →\r\n"
    let other := "\nS -> a | B\n\nS →\r"
    (textLines other).filter (fun line => !(Text.trim line).isEmpty) = retained text ∧
    (ofText text).skipped = [⟨3, "$ -> c", .reservedLeftSide "$"⟩, ⟨4, "B C", .missingArrow⟩] ∧
    retainedText text = "S -> a | B\nS →\r" ∧
    (textLines text)[4]? = some ['S', ' ', '→', '\r'] ∧ Fate text 4 ['S', ' ', '→', '\r'] ∧
    ofText (retainedText text) = ⟨(ofText text).grammar, []⟩ ∧
    ofText other = ⟨(ofText text).grammar, []⟩ ∧ Register.ofText other = Register.ofText text := by
  intro text other
  have hother :
      (textLines other).filter (fun line => !(Text.trim line).isEmpty) = retained text := by
    decide
  have hfifth : (textLines text)[4]? = some ['S', ' ', '→', '\r'] := by decide
  obtain ⟨⟨-, hfate⟩, -, ⟨hretained, -⟩, hblanks⟩ := lines_accounted_for text
  obtain ⟨hsame, hregister⟩ := hblanks other hother
  exact ⟨hother, by decide, by decide, hfifth, hfate 4 _ hfifth, hretained, hsame, hregister⟩

end Reading

end Predictive
