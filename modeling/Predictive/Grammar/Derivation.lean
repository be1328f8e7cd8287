import Predictive.Grammar.Basic

/-! # Derivations

    What a grammar means, said without sets, tables or machines: a form is a
    sequence of symbols, and a form yields another one when a non-terminal in
    it is replaced by the right side of one of its rules.

    A leftmost derivation always replaces the leftmost non-terminal; it is
    given by the numbers of its rules in order (`LeftmostDerives`).
-/

namespace Predictive.Grammar

variable {g : Grammar} {a b c : List Symbol}

/-! ### Derivations in any order -/

/-- One replacement somewhere in a form. -/
inductive Yields (g : Grammar) : List Symbol → List Symbol → Prop where
  | replace (before after : List Symbol) {r : Rule} (h : r ∈ g.rules) :
    Yields g (before ++ r.left :: after) (before ++ r.right ++ after)

/-- Any number of replacements. -/
inductive Derives (g : Grammar) : List Symbol → List Symbol → Prop where
  | refl (a : List Symbol) : Derives g a a
  | head {a b c : List Symbol} (first : Yields g a b) (rest : Derives g b c) : Derives g a c

theorem Derives.trans (h : Derives g a b) (k : Derives g b c) : Derives g a c := by
  induction h with
  | refl => exact k
  | head first _ ih => exact .head first (ih k)

theorem Derives.single (h : Yields g a b) : Derives g a b := .head h (.refl b)

/-- A rule derives its right side from its left side. -/
theorem Derives.rule {r : Rule} (h : r ∈ g.rules) : Derives g [r.left] r.right := by
  have step : Yields g ([] ++ r.left :: []) ([] ++ r.right ++ []) := .replace [] [] h
  simpa using Derives.single step

theorem Yields.context (h : Yields g a b) (before after : List Symbol) :
    Yields g (before ++ a ++ after) (before ++ b ++ after) := by
  cases h with
  | replace u v hr =>
    have step := Yields.replace (before ++ u) (v ++ after) hr
    simpa using step

/-- A derivation goes on unchanged inside a larger form. -/
theorem Derives.context (h : Derives g a b) (before after : List Symbol) :
    Derives g (before ++ a ++ after) (before ++ b ++ after) := by
  induction h with
  | refl => exact .refl _
  | head first _ ih => exact .head (first.context before after) ih

/-- The parts of a form can be derived from independently. -/
theorem Derives.append {a' b' : List Symbol} (h : Derives g a a') (k : Derives g b b') :
    Derives g (a ++ b) (a' ++ b') := by
  have left := h.context [] b
  have right := k.context a' []
  simp only [List.nil_append, List.append_nil] at left right
  exact left.trans right

/-! ### Leftmost derivations -/

/-- The rules `is` lead from one form to another, each replacing the leftmost
    non-terminal. -/
inductive LeftmostDerives (g : Grammar) : List Nat → List Symbol → List Symbol → Prop where
  | nil (a : List Symbol) : LeftmostDerives g [] a a
  | cons {i : Nat} {is : List Nat} {r : Rule} {c : List Symbol} (before after : List Symbol)
    (leftmost : ∀ x ∈ before, g.kind x ≠ .nonTerminal) (rule : g.rules[i]? = some r)
    (rest : LeftmostDerives g is (before ++ r.right ++ after) c) :
    LeftmostDerives g (i :: is) (before ++ r.left :: after) c

/-- A leftmost derivation is a derivation. -/
theorem LeftmostDerives.derives {is : List Nat} (h : LeftmostDerives g is a b) :
    Derives g a b := by
  induction h with
  | nil a => exact .refl a
  | cons before after _ hr _ ih =>
    exact .head (.replace before after (List.mem_of_getElem? hr)) ih

/-- Leftmost derivations follow one another. -/
theorem LeftmostDerives.append {is js : List Nat} (h : LeftmostDerives g is a b)
    (k : LeftmostDerives g js b c) : LeftmostDerives g (is ++ js) a c := by
  induction h with
  | nil => exact k
  | cons before after hb hr _ ih => exact .cons before after hb hr (ih k)

end Predictive.Grammar
