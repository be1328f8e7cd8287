import Predictive.Analysis
import Predictive.Report.ConflictText
import Predictive.Report.GrammarText
import Predictive.Report.TableText
import Predictive.Report.TraceText

/-! # Reports of an analysis

    The texts of every part of an analysis, and the JSON exports that put
    several of them together.
-/

namespace Predictive.Analysis

/-- The grammar and its sets as text. -/
def grammarText (a : Analysis) : GrammarText := a.grammar.report a.first a.follow

/-- The LL(1) table as text. -/
def tableText (a : Analysis) : TableText := a.grammar.tableText a.table

/-- The advice table as text. -/
def recoveryText (a : Analysis) : TableText := a.grammar.recoveryText a.recovery

/-- The conflicts as text. -/
def conflictTexts (a : Analysis) : List ConflictText :=
  a.table.conflicts.map (.ofConflict a.grammar)

/-- The export of a grammar: the grammar and its sets, the skipped lines, the
    conflicts. -/
def grammarExport (a : Analysis) : Json :=
  .obj [("info", a.grammarText.json), ("skipped", .strs (a.skipped.map SkippedLine.message)),
    ("conflicts", ConflictText.jsonList a.conflictTexts)]

/-- The export of a parse: the trace and the tree. -/
def parseExport (a : Analysis) (t : Trace) : Json :=
  .obj [("trace", (a.grammar.traceText t).json), ("tree", a.grammar.treeJson t)]

end Predictive.Analysis
