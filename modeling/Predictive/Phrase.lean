import Predictive.Symbol
import Predictive.Text.Blank

/-! # Phrases

    A phrase is a sequence of names with blanks between them. `ε` in a phrase
    stands for nothing. Alternatives of a rule and inputs are phrases.
-/

namespace Predictive

/-- The names of a phrase. -/
def Phrase.names (cs : List Char) : List String :=
  ((Text.words cs).map String.ofList).filter (· ≠ Symbol.epsilonName)

/-- The tokens of an input: the names of the phrase, and `$` at the end. -/
def tokenize (input : String) : List String :=
  Phrase.names input.toList ++ [Symbol.endMarkName]

end Predictive
