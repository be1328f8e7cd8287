/-! # Cutting text into pieces

    Two ways to cut a list of characters: at every character of a class
    (`splitWhere`) and around the first occurrence of a word (`splitAround?`).
    Lines, alternatives and tokens are cut the first way, the two sides of a
    rule the second way.

    Nothing is lost by either cut: `splitWhere_append_cons` rebuilds the list
    of pieces at a separator, `eq_append_of_splitAround?` rebuilds the text.
-/

namespace Predictive.Text

/-! ### Cutting at every separator -/

/-- The pieces of `cs` between the characters that satisfy `p`; there is one
    piece more than there are such characters. -/
def splitWhere (p : Char → Bool) : List Char → List (List Char)
  | [] => [[]]
  | c :: cs =>
    if p c then [] :: splitWhere p cs
    else match splitWhere p cs with
      | [] => [[c]]
      | piece :: pieces => (c :: piece) :: pieces

theorem splitWhere_ne_nil (p : Char → Bool) (cs : List Char) :
    splitWhere p cs ≠ [] := by
  cases cs with
  | nil => simp [splitWhere]
  | cons c cs =>
    by_cases h : p c
    · simp [splitWhere, h]
    · simp only [splitWhere, h]
      cases splitWhere p cs <;> simp

/-- A text without separators is its only piece. -/
theorem splitWhere_eq_singleton {p : Char → Bool} {cs : List Char}
    (h : ∀ c ∈ cs, p c = false) : splitWhere p cs = [cs] := by
  induction cs with
  | nil => rfl
  | cons c cs ih =>
    simp [splitWhere, h c (by simp), ih fun d hd => h d (by simp [hd])]

/-- The text before the first separator is the first piece. -/
theorem splitWhere_append_cons {p : Char → Bool} {cs : List Char} {sep : Char}
    (h : ∀ c ∈ cs, p c = false) (hsep : p sep = true) (rest : List Char) :
    splitWhere p (cs ++ sep :: rest) = cs :: splitWhere p rest := by
  induction cs with
  | nil => simp [splitWhere, hsep]
  | cons c cs ih =>
    simp [splitWhere, h c (by simp), ih fun d hd => h d (by simp [hd])]

/-- No piece holds a separator. -/
theorem not_mem_of_mem_splitWhere {p : Char → Bool} {piece cs : List Char} {c : Char}
    (h : piece ∈ splitWhere p cs) (hc : c ∈ piece) : p c = false := by
  induction cs generalizing piece with
  | nil => simp_all [splitWhere]
  | cons d cs ih =>
    by_cases hd : p d
    · simp only [splitWhere, hd, if_true, List.mem_cons] at h
      rcases h with rfl | h
      · simp at hc
      · exact ih h hc
    · obtain ⟨first, pieces, heq⟩ := List.exists_cons_of_ne_nil (splitWhere_ne_nil p cs)
      simp only [splitWhere, hd, heq, Bool.false_eq_true, if_false, List.mem_cons] at h
      rcases h with rfl | h
      · rcases List.mem_cons.1 hc with rfl | hc
        · simpa using hd
        · exact ih (heq ▸ List.mem_cons_self) hc
      · exact ih (heq ▸ List.mem_cons_of_mem _ h) hc

/-! ### Cutting around a word -/

/-- The text before and after the first occurrence of `word`. -/
def splitAround? (word : List Char) : List Char → Option (List Char × List Char)
  | [] => none
  | c :: cs =>
    if word.isPrefixOf (c :: cs) then some ([], (c :: cs).drop word.length)
    else (splitAround? word cs).map fun (before, after) => (c :: before, after)

/-- The two sides and the word between them are the whole text. -/
theorem eq_append_of_splitAround? {word cs before after : List Char}
    (h : splitAround? word cs = some (before, after)) :
    cs = before ++ word ++ after := by
  induction cs generalizing before with
  | nil => simp [splitAround?] at h
  | cons c cs ih =>
    by_cases hw : word.isPrefixOf (c :: cs)
    · obtain ⟨rest, hrest⟩ := List.isPrefixOf_iff_prefix.1 hw
      simp only [splitAround?, hw, if_true, Option.some.injEq, Prod.mk.injEq] at h
      obtain ⟨rfl, rfl⟩ := h
      simp [← hrest]
    · simp only [splitAround?, hw, Bool.false_eq_true, if_false, Option.map_eq_some_iff] at h
      obtain ⟨⟨b, a⟩, hb, heq⟩ := h
      simp only [Prod.mk.injEq] at heq
      obtain ⟨rfl, rfl⟩ := heq
      simpa using ih hb

end Predictive.Text
