import Predictive.Proofs.Analysis
import Predictive.Proofs.Grammar.Printing
import Predictive.Proofs.Json
import Predictive.Report.Export

/-! # The export of a grammar loses nothing

    The export of a grammar text is one value of JSON. Its text determines the
    value (`Json.compact_injective`), and the value determines what is shown of
    the grammar (`GrammarText.json_injective`). The rules that are shown are the
    rules as they are printed (`Grammar.map_line_report`), and a text that was
    read is determined by these up to what does not count
    (`Reading.grammar_eq_of_ruleTexts_eq`): the numbers, the kinds and the lists of
    symbols follow from the names on the rules.

    Main result: `Analysis.grammarExport_lossless`.
-/

namespace Predictive

/-! ### Values made of texts -/

theorem Json.strs_injective : Function.Injective Json.strs := by
  intro texts others h
  exact List.map_injective_iff.2 (fun _ _ => Json.str.inj) (Json.arr.inj h)

theorem Json.ofOption_injective : Function.Injective Json.ofOption := by
  intro text other h
  cases text with
  | none =>
    cases other with
    | none => rfl
    | some => cases h
  | some =>
    cases other with
    | none => cases h
    | some => exact congrArg some (Json.str.inj h)

namespace GrammarText

theorem ruleJson_injective : Function.Injective ruleJson := by
  intro r s h
  unfold ruleJson at h
  simp only [Json.obj.injEq, List.cons.injEq, Prod.mk.injEq, Json.str.injEq, true_and,
    and_true] at h
  obtain ⟨hname, hleft, hright⟩ := h
  cases r
  cases s
  simp_all only [Json.strs_injective.eq_iff]

theorem setJson_injective : Function.Injective setJson := by
  intro s t h
  unfold setJson at h
  simp only [Json.obj.injEq, List.cons.injEq, Prod.mk.injEq, Json.str.injEq, true_and,
    and_true] at h
  obtain ⟨hsymbol, hmembers⟩ := h
  cases s
  cases t
  simp_all only [Json.strs_injective.eq_iff]

/-- Each field of what is shown of a grammar is a member of the value. -/
theorem json_injective : Function.Injective json := by
  have hrules := List.map_injective_iff.2 ruleJson_injective
  have hsets := List.map_injective_iff.2 setJson_injective
  intro t u h
  unfold json at h
  simp only [Json.obj.injEq, List.cons.injEq, Prod.mk.injEq, Json.arr.injEq, true_and,
    and_true, Json.strs_injective.eq_iff, Json.ofOption_injective.eq_iff, hrules.eq_iff,
    hsets.eq_iff] at h
  obtain ⟨hothers, hterminals, hstart, hrule, hfirst, hfollow, hundefined⟩ := h
  cases t
  cases u
  simp_all only

end GrammarText

/-! ### Rules that are shown -/

/-- A rule with names on one line. -/
def RuleText.line (r : RuleText) : String := r.left ++ " -> " ++ " ".intercalate r.right

/-- The rules that are shown are the rules as they are printed. -/
theorem Grammar.map_line_report (g : Grammar) (first follow : SymbolSets) :
    (g.report first follow).rules.map RuleText.line = g.rules.map g.ruleText := by
  have hrules : g.rules.zipIdx.map Prod.fst = g.rules := List.zipIdx_map_fst 0 g.rules
  conv_rhs => rw [← hrules]
  unfold report
  rw [List.map_map, List.map_map]
  rfl

/-- Texts with the same printed rules have the same grammar. -/
theorem Reading.grammar_eq_of_ruleTexts_eq {text other : String}
    (h : (ofText text).grammar.rules.map (ofText text).grammar.ruleText
      = (ofText other).grammar.rules.map (ofText other).grammar.ruleText) :
    (ofText text).grammar = (ofText other).grammar := by
  -- the productions are read back from the printed rules
  have hread : ∀ text, productions (ofText text).grammar.text.toList = productions text.toList := by
    intro text
    have htext : (ofText text).grammar.text
        = "\n".intercalate ((productions text.toList).map Production.text) :=
      Grammar.text_ofProductions
    rw [htext, productions_printed fun _ hp => printable_of_mem_productions hp]
  have htexts : (ofText text).grammar.text = (ofText other).grammar.text := by
    unfold Grammar.text
    rw [h]
  have hproductions : productions text.toList = productions other.toList := by
    rw [← hread text, htexts, hread other]
  exact congrArg Grammar.ofProductions hproductions

/-! ### Exports -/

namespace Analysis

/-- What an export says of the grammar and of the skipped lines. -/
theorem grammarText_eq_of_grammarExport_eq {a b : Analysis}
    (h : a.grammarExport.compact = b.grammarExport.compact) :
    a.grammarText = b.grammarText ∧
      a.skipped.map SkippedLine.message = b.skipped.map SkippedLine.message := by
  have hvalue := Json.compact_injective h
  unfold grammarExport at hvalue
  simp only [Json.obj.injEq, List.cons.injEq, Prod.mk.injEq, true_and, and_true] at hvalue
  obtain ⟨hinfo, hskipped, -⟩ := hvalue
  exact ⟨GrammarText.json_injective hinfo, Json.strs_injective hskipped⟩

/-- Analyses of texts with the same grammar differ in the skipped lines only. -/
theorem ofText_eq_of_grammar_eq {text other : String}
    (h : (Reading.ofText text).grammar = (Reading.ofText other).grammar) :
    ∃ skipped, ofText other = { ofText text with skipped := skipped } := by
  refine ⟨(Reading.ofText other).skipped, ?_⟩
  simp only [ofText, ofReading_eq, h]

/-- The export of a grammar loses nothing. Texts with the same export have the
    same grammar: the same symbols with the same numbers, names and kinds, the
    same start symbol, lists and rules. They have the same messages about skipped
    lines, and so the same tables, the same conflicts, and the same record and
    export of the parse of any input. -/
theorem grammarExport_lossless (text other : String)
    (h : (ofText text).grammarExport.compact = (ofText other).grammarExport.compact) :
    (ofText text).grammar = (ofText other).grammar ∧
    Register.ofText text = Register.ofText other ∧
    (ofText text).skipped.map SkippedLine.message
      = (ofText other).skipped.map SkippedLine.message ∧
    (ofText text).table = (ofText other).table ∧
    (ofText text).recovery = (ofText other).recovery ∧
    (ofText text).conflictTexts = (ofText other).conflictTexts ∧
    (∀ input limit fuel,
      (ofText text).parse input limit fuel = (ofText other).parse input limit fuel) ∧
    ∀ t, (ofText text).parseExport t = (ofText other).parseExport t := by
  obtain ⟨hshown, hskipped⟩ := grammarText_eq_of_grammarExport_eq h
  have hgrammar : (Reading.ofText text).grammar = (Reading.ofText other).grammar := by
    apply Reading.grammar_eq_of_ruleTexts_eq
    have hlines := congrArg (fun shown => shown.rules.map RuleText.line) hshown
    unfold grammarText at hlines
    simp only [Grammar.map_line_report, grammar_ofText] at hlines
    exact hlines
  have hregister : Register.ofText text = Register.ofText other := by
    rw [Register.ofText_eq, Register.ofText_eq, hgrammar]
  obtain ⟨skipped, hsame⟩ := ofText_eq_of_grammar_eq hgrammar
  refine ⟨?_, hregister, hskipped, ?_⟩
  · rw [hsame]
  -- nothing else is made from the skipped lines
  rw [hsame]
  generalize ofText text = a
  exact ⟨rfl, rfl, rfl, fun _ _ _ => rfl, fun _ => rfl⟩

/-- A name may hold quotes, backslashes and controls. The same rules with another
    arrow and other blanks, and the same skipped line. -/
theorem grammarExport_lossless_of_names :
    let text := "S -> \"\\\x01 S | \\\" | ε\n\"no\" rule"
    let other := "S→\"\\\x01  S|\\\"|\n  \"no\" rule  "
    (ofText text).grammarExport.compact = (ofText other).grammarExport.compact ∧
      (ofText text).grammar.rules = [⟨2, [3, 2]⟩, ⟨2, [4]⟩, ⟨2, []⟩] ∧
      (ofText text).grammar = (ofText other).grammar ∧
      Register.ofText text = Register.ofText other ∧
      ∀ input limit fuel,
        (ofText text).parse input limit fuel = (ofText other).parse input limit fuel := by
  intro text other
  have hreading : Reading.ofText text = Reading.ofText other := by decide +kernel
  have hexport : (ofText text).grammarExport.compact = (ofText other).grammarExport.compact := by
    unfold ofText
    rw [hreading]
  have hrules : (ofText text).grammar.rules = [⟨2, [3, 2]⟩, ⟨2, [4]⟩, ⟨2, []⟩] := by decide
  obtain ⟨hgrammar, hregister, -, -, -, -, hparse, -⟩ := grammarExport_lossless text other hexport
  exact ⟨hexport, hrules, hgrammar, hregister, hparse⟩

end Analysis

end Predictive
