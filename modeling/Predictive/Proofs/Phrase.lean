import Predictive.Proofs.Grammar.WellFormed

/-! # Reading a phrase back

    Names joined by spaces are read as these names, since no name holds a
    blank and none is `ε` (`Phrase.names_intercalate`). So the phrase of a
    sequence of symbols, given as an input, has the names of the symbols as
    its tokens (`Grammar.names_phrase`).
-/

namespace Predictive

/-- Cutting takes back a separator put between pieces. -/
theorem Text.splitWhere_intercalate {p : Char → Bool} {sep : Char} (hsep : p sep = true)
    {pieces : List (List Char)} (hne : pieces ≠ [])
    (h : ∀ piece ∈ pieces, ∀ c ∈ piece, p c = false) :
    splitWhere p (List.intercalate [sep] pieces) = pieces := by
  induction pieces with
  | nil => exact absurd rfl hne
  | cons piece pieces ih =>
    have hpiece := h piece List.mem_cons_self
    cases pieces with
    | nil =>
      rw [List.intercalate_singleton]
      exact splitWhere_eq_singleton hpiece
    | cons other rest =>
      have hrest := ih (List.cons_ne_nil other rest) fun q hq => h q (List.mem_cons_of_mem _ hq)
      rw [List.intercalate_cons_cons, List.append_assoc, List.singleton_append,
        splitWhere_append_cons hpiece hsep, hrest]

/-- Words with spaces between them are read as these words. -/
theorem Text.words_intercalate {ws : List (List Char)} (h : ∀ w ∈ ws, IsWord w) :
    words (List.intercalate [' '] ws) = ws := by
  unfold words
  by_cases hws : ws = []
  · subst hws
    rfl
  · have hspace : isBlank ' ' = true := by decide
    rw [splitWhere_intercalate hspace hws fun w hw => (h w hw).not_isBlank]
    rw [List.filter_eq_self]
    intro w hw
    simpa using (h w hw).ne_nil

theorem Phrase.names_intercalate {names : List String} (h : ∀ name ∈ names, IsName name) :
    Phrase.names (" ".intercalate names).toList = names := by
  have hwords : ∀ w ∈ names.map String.toList, Text.IsWord w := by
    intro w hw
    obtain ⟨name, hname, rfl⟩ := List.mem_map.1 hw
    exact (h name hname).isWord
  have hspace : " ".toList = [' '] := rfl
  have hchars : (names.map String.toList).map String.ofList = names := by simp
  unfold Phrase.names
  rw [String.toList_intercalate, hspace, Text.words_intercalate hwords, hchars]
  rw [List.filter_eq_self]
  intro name hname
  exact decide_eq_true (h name hname).ne_epsilon

/-- The phrase of a sequence of symbols holds their names. -/
theorem Grammar.names_phrase {g : Grammar} (hg : g.WellFormed) {xs : List Symbol}
    (hlt : ∀ x ∈ xs, x < g.size) (hne : ∀ x ∈ xs, x ≠ Symbol.epsilon) :
    Phrase.names (g.phrase xs).toList = g.names xs := by
  unfold phrase
  apply Phrase.names_intercalate
  intro name hname
  unfold names at hname
  obtain ⟨x, hx, rfl⟩ := List.mem_map.1 hname
  exact hg.isName (hlt x hx) (hne x hx)

end Predictive
