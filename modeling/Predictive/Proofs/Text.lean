import Predictive.Text.Blank

/-! # Cutting and trimming text

    A text is cut around a word at the leftmost occurrence of the word: no
    occurrence begins in the part before it (`splitAround?_eq_some_iff`), and a
    text that is not cut does not hold the word (`splitAround?_eq_none_iff`).

    Cutting and trimming only leave out: what is in a piece, a word or a
    trimmed text was in the whole text.
-/

namespace Predictive.Text

variable {p : Char → Bool} {word cs before after piece w : List Char} {c : Char}

/-! ### Around a word -/

/-- What is not cut around a word does not hold the word. -/
theorem splitAround?_eq_none_iff (hword : word ≠ []) :
    splitAround? word cs = none ↔ ¬word <:+: cs := by
  induction cs with
  | nil => simp [splitAround?, hword]
  | cons c cs ih =>
    rw [List.infix_cons_iff, splitAround?]
    by_cases hfront : word <+: c :: cs
    · simp [hfront]
    · have hbool : word.isPrefixOf (c :: cs) = false := by
        simpa [← List.isPrefixOf_iff_prefix] using hfront
      simp [hbool, hfront, ih]

/-- A word in front of the text is the leftmost one. -/
theorem eq_nil_of_prefix (h : word <+: before ++ word ++ after)
    (hfirst : ¬word <:+: before ++ word.dropLast) : before = [] := by
  cases hbefore : before with
  | nil => rfl
  | cons b bs =>
    -- the word ends before the last character of the occurrence that is cut
    refine absurd ?_ hfirst
    have hshort : before ++ word.dropLast <+: before ++ word ++ after := by
      rw [List.append_assoc]
      exact List.prefix_append_right_inj before |>.2
        ((List.dropLast_prefix word).trans (List.prefix_append word after))
    have hle : word.length ≤ (before ++ word.dropLast).length := by
      rw [List.length_append, List.length_dropLast, hbefore, List.length_cons]
      omega
    exact (List.prefix_of_prefix_length_le h hshort hle).isInfix

/-- A text is cut at the leftmost occurrence: none begins further left. -/
theorem splitAround?_eq_some_iff (hword : word ≠ []) :
    splitAround? word cs = some (before, after) ↔
      cs = before ++ word ++ after ∧ ¬word <:+: before ++ word.dropLast := by
  have hlength : 0 < word.length := List.length_pos_iff.2 hword
  induction cs generalizing before with
  | nil =>
    -- the word is longer than the text
    simp [splitAround?, hword]
  | cons c cs ih =>
    rw [splitAround?]
    by_cases hfront : word <+: c :: cs
    · rw [if_pos (List.isPrefixOf_iff_prefix.2 hfront)]
      constructor
      · intro h
        obtain ⟨rest, hrest⟩ := hfront
        simp only [Option.some.injEq, Prod.mk.injEq] at h
        obtain ⟨rfl, rfl⟩ := h
        refine ⟨by simp [← hrest], ?_⟩
        intro hwithin
        have := hwithin.length_le
        simp only [List.nil_append, List.length_dropLast] at this
        omega
      · intro h
        obtain ⟨hcut, hfirst⟩ := h
        rw [hcut] at hfront
        obtain rfl := eq_nil_of_prefix hfront hfirst
        simp [hcut]
    · rw [if_neg (fun h => hfront (List.isPrefixOf_iff_prefix.1 h)), Option.map_eq_some_iff]
      constructor
      · intro h
        obtain ⟨⟨b, a⟩, hrest, hpair⟩ := h
        simp only [Prod.mk.injEq] at hpair
        obtain ⟨rfl, rfl⟩ := hpair
        obtain ⟨rfl, hfirst⟩ := ih.1 hrest
        refine ⟨rfl, ?_⟩
        rw [List.cons_append, List.infix_cons_iff]
        rintro (hbegin | hwithin)
        · refine hfront (hbegin.trans ?_)
          rw [← List.cons_append, List.append_assoc]
          exact List.prefix_append_right_inj (c :: b) |>.2
            ((List.dropLast_prefix word).trans (List.prefix_append word a))
        · exact hfirst hwithin
      · intro h
        obtain ⟨hcut, hfirst⟩ := h
        cases before with
        | nil =>
          rw [List.nil_append] at hcut
          exact absurd ⟨after, hcut.symm⟩ hfront
        | cons b bs =>
          rw [List.cons_append, List.cons_append] at hcut
          obtain ⟨rfl, hrest⟩ := List.cons.inj hcut
          rw [List.cons_append, List.infix_cons_iff, not_or] at hfirst
          exact ⟨(bs, after), ih.2 ⟨hrest, hfirst.2⟩, rfl⟩

/-- The part before the leftmost occurrence holds no other. -/
theorem not_infix_of_splitAround? (hword : word ≠ [])
    (h : splitAround? word cs = some (before, after)) : ¬word <:+: before := by
  intro hwithin
  obtain ⟨-, hfirst⟩ := (splitAround?_eq_some_iff hword).1 h
  exact hfirst (hwithin.trans (List.prefix_append before _).isInfix)

/-- An occurrence that does not reach into the next one: a word whose last
    character stands nowhere else in it is cut at its first occurrence. -/
theorem splitAround?_append (front : List Char) (last : Char) (hword : word = front ++ [last])
    (hlast : last ∉ front) (h : ¬word <:+: before) :
    splitAround? word (before ++ word ++ after) = some (before, after) := by
  rw [splitAround?_eq_some_iff (by simp [hword])]
  refine ⟨rfl, ?_⟩
  rw [hword, List.dropLast_concat, ← hword]
  intro hwithin
  have hmem : last ∈ word := by simp [hword]
  rcases List.infix_append_iff.1 hwithin with hbefore | hfront | ⟨xs, ys, hsplit, hxs, hys⟩
  · exact h hbefore
  · exact hlast (hfront.mem hmem)
  · rcases List.eq_nil_or_concat ys with rfl | ⟨init, y, rfl⟩
    · rw [List.append_nil] at hsplit
      exact h (hsplit ▸ hxs.isInfix)
    · -- then the last character of the word stands in `front`
      rw [hword, List.concat_eq_append, ← List.append_assoc] at hsplit
      obtain rfl : last = y := by simpa using (List.append_inj' hsplit rfl).2
      exact hlast (hys.mem (by simp))

/-- A word does not reach over a character that is not in it. -/
theorem infix_append_cons_iff (hword : word ≠ []) (hc : c ∉ word) :
    word <:+: before ++ c :: after ↔ word <:+: before ∨ word <:+: after := by
  constructor
  · intro h
    have hfront : ∀ {ys : List Char}, (∀ y ∈ ys, y ∈ word) → ys <+: c :: after → ys = [] := by
      intro ys hys hprefix
      cases ys with
      | nil => rfl
      | cons y ys =>
        obtain ⟨rfl, -⟩ := List.cons_prefix_cons.1 hprefix
        exact absurd (hys y List.mem_cons_self) hc
    rcases List.infix_append_iff.1 h with hbefore | hafter | ⟨xs, ys, hsplit, hxs, hys⟩
    · exact .inl hbefore
    · rcases List.infix_cons_iff.1 hafter with hprefix | hafter
      · exact absurd (hfront (fun _ hy => hy) hprefix) hword
      · exact .inr hafter
    · have hnil := hfront (fun y hy => by simp [hsplit, hy]) hys
      rw [hnil, List.append_nil] at hsplit
      exact .inl (hsplit ▸ hxs.isInfix)
  · rintro (h | h)
    · exact h.trans (List.prefix_append before _).isInfix
    · exact h.trans ((List.suffix_cons c after).trans (List.suffix_append before _)).isInfix

/-! ### At separators -/

theorem mem_of_mem_splitWhere (h : piece ∈ splitWhere p cs) (hc : c ∈ piece) : c ∈ cs := by
  induction cs generalizing piece with
  | nil =>
    rw [splitWhere, List.mem_singleton] at h
    rw [h] at hc
    cases hc
  | cons d cs ih =>
    by_cases hd : p d
    · simp only [splitWhere, hd, if_true, List.mem_cons] at h
      rcases h with rfl | h
      · cases hc
      · exact List.mem_cons_of_mem d (ih h hc)
    · obtain ⟨first, pieces, heq⟩ := List.exists_cons_of_ne_nil (splitWhere_ne_nil p cs)
      simp only [splitWhere, hd, heq, Bool.false_eq_true, if_false, List.mem_cons] at h
      rcases h with rfl | h
      · rcases List.mem_cons.1 hc with rfl | hc
        · exact List.mem_cons_self
        · exact List.mem_cons_of_mem d (ih (heq ▸ List.mem_cons_self) hc)
      · exact List.mem_cons_of_mem d (ih (heq ▸ List.mem_cons_of_mem _ h) hc)

/-- There is one piece more than there are separators. -/
theorem length_splitWhere (p : Char → Bool) (cs : List Char) :
    (splitWhere p cs).length = cs.countP p + 1 := by
  induction cs with
  | nil => rfl
  | cons c cs ih =>
    by_cases hc : p c
    · simp [splitWhere, hc, ih]
    · obtain ⟨first, pieces, heq⟩ := List.exists_cons_of_ne_nil (splitWhere_ne_nil p cs)
      rw [heq] at ih
      simp only [splitWhere, hc, heq, List.countP_cons] at ih ⊢
      simpa using ih

theorem mem_of_mem_words (h : w ∈ words cs) (hc : c ∈ w) : c ∈ cs :=
  mem_of_mem_splitWhere (List.mem_filter.1 h).1 hc

/-- A blank in front does not matter for the words. -/
theorem words_cons_of_isBlank (h : isBlank c = true) : words (c :: cs) = words cs := by
  unfold words
  rw [splitWhere, if_pos h, List.filter_cons_of_neg (by simp)]

/-! ### Trimming -/

theorem trim_infix (cs : List Char) : trim cs <:+: cs := by
  have hfront : cs.dropWhile isBlank <:+ cs := List.dropWhile_suffix _
  have hback : (cs.dropWhile isBlank).reverse.dropWhile isBlank <:+
      (cs.dropWhile isBlank).reverse := List.dropWhile_suffix _
  refine List.IsInfix.trans ?_ hfront.isInfix
  unfold trim
  rw [← List.reverse_infix, List.reverse_reverse]
  exact hback.isInfix

/-- Only blanks are left out. -/
theorem mem_trim_of_not_isBlank (h : c ∈ cs) (hc : isBlank c = false) : c ∈ trim cs := by
  have hdrop : ∀ {cs : List Char}, c ∈ cs → c ∈ cs.dropWhile isBlank := by
    intro cs h
    rw [← List.takeWhile_append_dropWhile (p := isBlank) (l := cs), List.mem_append] at h
    rcases h with h | h
    · have hblank : isBlank c = true := (List.all_eq_true.1 List.all_takeWhile) c h
      rw [hc] at hblank
      cases hblank
    · exact h
  unfold trim
  rw [List.mem_reverse]
  exact hdrop (List.mem_reverse.2 (hdrop h))

theorem dropWhile_isBlank_eq_self (h : ∀ c, cs.head? = some c → isBlank c = false) :
    cs.dropWhile isBlank = cs := by
  cases cs with
  | nil => rfl
  | cons c cs =>
    rw [List.dropWhile_cons, if_neg]
    simp [h c rfl]

/-- Blanks behind a text without blanks at its ends are left out. -/
theorem trim_append {blanks : List Char} (hne : cs ≠ [])
    (hfirst : ∀ c, cs.head? = some c → isBlank c = false)
    (hlast : ∀ c, cs.getLast? = some c → isBlank c = false)
    (hblanks : ∀ c ∈ blanks, isBlank c = true) : trim (cs ++ blanks) = cs := by
  have hfront : (cs ++ blanks).dropWhile isBlank = cs ++ blanks := by
    apply dropWhile_isBlank_eq_self
    intro c hc
    obtain ⟨d, rest, rfl⟩ := List.exists_cons_of_ne_nil hne
    exact hfirst c hc
  have hback : cs.reverse.dropWhile isBlank = cs.reverse := by
    apply dropWhile_isBlank_eq_self
    intro c hc
    apply hlast
    rwa [List.head?_reverse] at hc
  have hskip : ∀ c ∈ blanks.reverse, isBlank c = true :=
    fun c hc => hblanks c (List.mem_reverse.1 hc)
  unfold trim
  rw [hfront, List.reverse_append, List.dropWhile_append_of_pos hskip, hback,
    List.reverse_reverse]

theorem trim_eq_self (hne : cs ≠ []) (hfirst : ∀ c, cs.head? = some c → isBlank c = false)
    (hlast : ∀ c, cs.getLast? = some c → isBlank c = false) : trim cs = cs := by
  have hnone : ∀ c ∈ ([] : List Char), isBlank c = true := by simp
  have h := trim_append hne hfirst hlast hnone
  rwa [List.append_nil] at h

end Predictive.Text
