import Predictive.Text.Pieces

/-! # Blanks

    A blank is a character with the Unicode property White_Space. Lines are
    trimmed of blanks at both ends, and a text is a sequence of words with
    blanks between them.

    Main facts: `words` returns non-empty words without blanks
    (`ne_nil_of_mem_words`, `not_isBlank_of_mem_words`).
-/

namespace Predictive.Text

/-- White_Space: the ASCII controls from tab to carriage return, space, next
    line, and the Unicode spaces and separators. -/
def isBlank (c : Char) : Bool :=
  let n := c.toNat
  (0x9 ≤ n && n ≤ 0xD) || n == 0x20 || n == 0x85 || n == 0xA0 || n == 0x1680 ||
  (0x2000 ≤ n && n ≤ 0x200A) || n == 0x2028 || n == 0x2029 || n == 0x202F ||
  n == 0x205F || n == 0x3000

/-- The text without the blanks at its ends. -/
def trim (cs : List Char) : List Char :=
  ((cs.dropWhile isBlank).reverse.dropWhile isBlank).reverse

/-- The words of a text, which blanks separate. -/
def words (cs : List Char) : List (List Char) :=
  (splitWhere isBlank cs).filter (!·.isEmpty)

theorem ne_nil_of_mem_words {w cs : List Char} (h : w ∈ words cs) : w ≠ [] := by
  simp only [words, List.mem_filter, Bool.not_eq_true', List.isEmpty_eq_false_iff] at h
  exact h.2

theorem not_isBlank_of_mem_words {w cs : List Char} {c : Char} (h : w ∈ words cs)
    (hc : c ∈ w) : isBlank c = false :=
  not_mem_of_mem_splitWhere (List.mem_filter.1 h).1 hc

end Predictive.Text
