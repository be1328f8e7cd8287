import Predictive.Follow
import Predictive.Json

/-! # A grammar and its sets as text

    The symbols by kind, the rules with their names, FIRST of every
    non-terminal and terminal, FOLLOW of every non-terminal, and the
    non-terminals that no rule defines.
-/

namespace Predictive

/-- A rule with names. -/
structure RuleText where
  name : String
  left : String
  right : List String
  deriving DecidableEq, Repr

/-- A symbol with the names of a set of symbols. -/
structure SetText where
  symbol : String
  members : List String
  deriving DecidableEq, Repr

/-- What is shown of a grammar. The start symbol is not among the variables. -/
structure GrammarText where
  otherNonTerminals : List String
  terminals : List String
  start : Option String
  rules : List RuleText
  firstSets : List SetText
  followSets : List SetText
  undefined : List String
  deriving DecidableEq, Repr

namespace Grammar

/-- The name of the `i`-th rule, counted from one. -/
def ruleName (i : Nat) : String := "rule" ++ toString (i + 1)

/-- The members of a set in the order of display: terminals, then `$`, then
    `ε`. -/
def displayed (s : SymbolSet) : List Symbol :=
  s.toList.filter (fun x => x ≠ Symbol.endMark ∧ x ≠ Symbol.epsilon) ++
    [Symbol.endMark, Symbol.epsilon].filter (· ∈ s)

/-- A symbol and its set in names. -/
def setText (g : Grammar) (sets : SymbolSets) (x : Symbol) : SetText :=
  ⟨g.name x, g.names (displayed (sets.get x))⟩

/-- What is shown of a grammar with these sets. -/
def report (g : Grammar) (first follow : SymbolSets) : GrammarText :=
  { otherNonTerminals := g.names g.otherNonTerminals
    terminals := g.names g.terminals
    start := g.start?.map g.name
    rules := g.rules.zipIdx.map fun (r, i) => ⟨ruleName i, g.name r.left, g.names r.shown⟩
    firstSets := (g.nonTerminals ++ g.terminals).map (g.setText first)
    followSets := g.nonTerminals.map (g.setText follow)
    undefined := g.names g.undefined }

end Grammar

namespace GrammarText

/-- The lines for a family of sets, after an empty line and a title. -/
def setLines (title : String) (sets : List SetText) : List String :=
  ["", title ++ " Sets:"] ++ sets.map fun s => s.symbol ++ ": " ++ ", ".intercalate s.members

/-- The plain form. -/
def plain (t : GrammarText) : String :=
  let symbols :=
    ["Variables: " ++ ", ".intercalate t.otherNonTerminals,
      "Terminals: " ++ ", ".intercalate t.terminals,
      "Start Symbol: " ++ t.start.getD "-"]
  let rules := t.rules.map fun r => r.name ++ ": " ++ r.left ++ " -> " ++ " ".intercalate r.right
  let undefined :=
    if t.undefined.isEmpty then [] else ["", "Undefined: " ++ ", ".intercalate t.undefined]
  "\n".intercalate (symbols ++ ["", "Rules:"] ++ rules ++ setLines "FIRST" t.firstSets ++
    setLines "FOLLOW" t.followSets ++ undefined)

/-- A rule in JSON. -/
def ruleJson (r : RuleText) : Json :=
  .obj [("name", .str r.name), ("left", .str r.left), ("right", .strs r.right)]

/-- A set in JSON. -/
def setJson (s : SetText) : Json := .obj [("symbol", .str s.symbol), ("set", .strs s.members)]

/-- The JSON form. -/
def json (t : GrammarText) : Json :=
  .obj [("variables", .strs t.otherNonTerminals), ("terminals", .strs t.terminals),
    ("start", .ofOption t.start), ("rules", .arr (t.rules.map ruleJson)),
    ("first_sets", .arr (t.firstSets.map setJson)),
    ("follow_sets", .arr (t.followSets.map setJson)), ("undefined", .strs t.undefined)]

end GrammarText

end Predictive
