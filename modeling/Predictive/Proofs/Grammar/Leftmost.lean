import Predictive.Proofs.Grammar.WellFormed

/-! # Leftmost derivations from the left

    What the first symbol of a form says about a leftmost derivation from it.
    If it is no non-terminal, it stays in front and the derivation goes on
    behind it (`LeftmostDerives.behind`). If it is one, and the last form does
    not begin with one, then the first rule of the derivation replaces it
    (`LeftmostDerives.first_rule_of_head`).

    Any derivation can be made leftmost up to the first non-terminal that it
    leaves (`Derives.leftmost_to`), and as a whole if it leaves none
    (`Derives.leftmost_word`). The step behind both puts one replacement in
    front of a leftmost derivation (`LeftmostDerives.unreplace`).
-/

namespace Predictive.Grammar

variable {g : Grammar} {is : List Nat} {x : Symbol} {a b : List Symbol}

/-- What holds for all symbols of a form and of the right sides holds for all
    symbols of the forms derived from it. -/
theorem Derives.forall_mem {p : Symbol → Prop} (hright : ∀ r ∈ g.rules, ∀ y ∈ r.right, p y)
    (h : g.Derives a b) (ha : ∀ y ∈ a, p y) : ∀ y ∈ b, p y := by
  induction h with
  | refl => exact ha
  | head step _ ih =>
    cases step with
    | replace before after hr =>
      apply ih
      intro y hy
      rcases List.mem_append.1 hy with hy | hy
      · rcases List.mem_append.1 hy with hy | hy
        · exact ha y (List.mem_append_left _ hy)
        · exact hright _ hr y hy
      · exact ha y (List.mem_append_right _ (List.mem_cons_of_mem _ hy))

namespace LeftmostDerives

theorem single {i : Nat} {r : Rule} {before : List Symbol} (after : List Symbol)
    (hbefore : ∀ y ∈ before, g.kind y ≠ .nonTerminal) (hr : g.rules[i]? = some r) :
    g.LeftmostDerives [i] (before ++ r.left :: after) (before ++ r.right ++ after) :=
  .cons before after hbefore hr (.nil _)

theorem of_nil (h : g.LeftmostDerives is a b) (ha : a = []) : is = [] ∧ b = [] := by
  cases h with
  | nil => exact ⟨rfl, ha⟩
  | cons before after => simp at ha

/-- A symbol in front that is no non-terminal stays there. -/
theorem behind (hg : g.WellFormed) (hx : g.kind x ≠ .nonTerminal)
    (h : g.LeftmostDerives is (x :: a) b) : ∃ b', b = x :: b' ∧ g.LeftmostDerives is a b' := by
  generalize hform : x :: a = form at h
  induction h generalizing a with
  | nil => exact ⟨a, hform.symm, .nil a⟩
  | cons before after hbefore hr rest ih =>
    rename_i i is r c
    cases before with
    | nil =>
      -- a left side would be in front
      obtain ⟨rfl, -⟩ := List.cons.inj hform
      exact absurd (hg.kind_left (List.mem_of_getElem? hr)) hx
    | cons y before =>
      obtain ⟨rfl, rfl⟩ := List.cons.inj hform
      obtain ⟨b', hb', hderives⟩ := ih rfl
      have hbefore' : ∀ z ∈ before, g.kind z ≠ .nonTerminal :=
        fun z hz => hbefore z (List.mem_cons_of_mem _ hz)
      exact ⟨b', hb', .cons before after hbefore' hr hderives⟩

/-- A non-terminal in front is replaced by the first rule, if the last form
    does not begin with one. -/
theorem first_rule_of_head (hx : g.kind x = .nonTerminal)
    (hb : ∀ y, b.head? = some y → g.kind y ≠ .nonTerminal)
    (h : g.LeftmostDerives is (x :: a) b) : ∃ i rest r, is = i :: rest ∧
      g.rules[i]? = some r ∧ r.left = x ∧ g.LeftmostDerives rest (r.right ++ a) b := by
  generalize hform : x :: a = form at h
  cases h with
  | nil =>
    subst hform
    exact absurd hx (hb x rfl)
  | cons before after hbefore hr rest =>
    rename_i i is r
    cases before with
    | nil =>
      obtain ⟨rfl, rfl⟩ := List.cons.inj hform
      exact ⟨i, is, r, rfl, hr, rfl, rest⟩
    | cons y before =>
      obtain ⟨rfl, -⟩ := List.cons.inj hform
      exact absurd hx (hbefore x List.mem_cons_self)

theorem first_rule (hx : g.kind x = .nonTerminal) (hb : ∀ y ∈ b, g.kind y ≠ .nonTerminal)
    (h : g.LeftmostDerives is (x :: a) b) : ∃ i rest r, is = i :: rest ∧
      g.rules[i]? = some r ∧ r.left = x ∧ g.LeftmostDerives rest (r.right ++ a) b :=
  h.first_rule_of_head hx fun y hy => hb y (List.mem_of_head? hy)

end LeftmostDerives

/-! ### The leftmost non-terminal -/

theorem exists_leftmost (h : ∃ y ∈ a, g.kind y = .nonTerminal) :
    ∃ before y after, a = before ++ y :: after ∧ g.kind y = .nonTerminal ∧
      ∀ z ∈ before, g.kind z ≠ .nonTerminal := by
  induction a with
  | nil => simp at h
  | cons z a ih =>
    by_cases hz : g.kind z = .nonTerminal
    · exact ⟨[], z, a, rfl, hz, by simp⟩
    · obtain ⟨y, hy, hkind⟩ := h
      have hya : y ∈ a := by
        rcases List.mem_cons.1 hy with rfl | hy
        · exact absurd hkind hz
        · exact hy
      obtain ⟨before, x, after, rfl, hx, hbefore⟩ := ih ⟨y, hya, hkind⟩
      refine ⟨z :: before, x, after, rfl, hx, ?_⟩
      intro u hu
      rcases List.mem_cons.1 hu with rfl | hu
      · exact hz
      · exact hbefore u hu

/-- A form has one leftmost non-terminal only. -/
theorem eq_of_leftmost {y : Symbol} {before before' after after' : List Symbol}
    (hx : g.kind x = .nonTerminal) (hbefore : ∀ z ∈ before, g.kind z ≠ .nonTerminal)
    (hy : g.kind y = .nonTerminal) (hbefore' : ∀ z ∈ before', g.kind z ≠ .nonTerminal)
    (h : before ++ x :: after = before' ++ y :: after') :
    before = before' ∧ x = y ∧ after = after' := by
  induction before generalizing before' with
  | nil =>
    cases before' with
    | nil =>
      obtain ⟨rfl, rfl⟩ := List.cons.inj h
      exact ⟨rfl, rfl, rfl⟩
    | cons z before' =>
      obtain ⟨rfl, -⟩ := List.cons.inj h
      exact absurd hx (hbefore' x List.mem_cons_self)
  | cons z before ih =>
    cases before' with
    | nil =>
      obtain ⟨rfl, -⟩ := List.cons.inj h
      exact absurd hy (hbefore z List.mem_cons_self)
    | cons z' before' =>
      obtain ⟨rfl, hrest⟩ := List.cons.inj h
      obtain ⟨rfl, hsame⟩ := ih (fun u hu => hbefore u (List.mem_cons_of_mem _ hu))
        (fun u hu => hbefore' u (List.mem_cons_of_mem _ hu)) hrest
      exact ⟨rfl, hsame⟩

/-! ### Every derivation can be made leftmost -/

/-- A replacement can be put in front of a leftmost derivation: it takes place
    when it is the leftmost one. If that time never comes, the derivation ends
    with a non-terminal in front of the replaced part, and the part waits. -/
theorem LeftmostDerives.unreplace (hg : g.WellFormed) {i : Nat} {r : Rule}
    (hr : g.rules[i]? = some r) {before after c : List Symbol}
    (h : g.LeftmostDerives is (before ++ r.right ++ after) c) :
    (∃ js, g.LeftmostDerives js (before ++ r.left :: after) c) ∨
    (∃ js front, g.LeftmostDerives js (before ++ r.left :: after) (front ++ r.left :: after) ∧
      (∃ y ∈ front, g.kind y = .nonTerminal) ∧ c = front ++ r.right ++ after) := by
  generalize hform : before ++ r.right ++ after = form at h
  induction h generalizing before with
  | nil form =>
    subst hform
    by_cases hfront : ∃ y ∈ before, g.kind y = .nonTerminal
    · exact .inr ⟨[], before, .nil _, hfront, rfl⟩
    · have hfirst : ∀ y ∈ before, g.kind y ≠ .nonTerminal := fun y hy hk => hfront ⟨y, hy, hk⟩
      exact .inl ⟨[i], .single after hfirst hr⟩
  | @cons j js s c before₀ after₀ hleftmost hs rest ih =>
    by_cases hfront : ∃ y ∈ before, g.kind y = .nonTerminal
    · -- the next replacement is in front, so it comes first in both derivations
      obtain ⟨before₁, y, gap, rfl, hy, hbefore₁⟩ := exists_leftmost hfront
      have hcut : before₁ ++ y :: (gap ++ r.right ++ after) = before₀ ++ s.left :: after₀ := by
        rw [← hform]
        simp
      obtain ⟨rfl, rfl, rfl⟩ := eq_of_leftmost hy hbefore₁
        (hg.kind_left (List.mem_of_getElem? hs)) hleftmost hcut
      have hsplit : before₁ ++ s.left :: gap ++ r.left :: after
          = before₁ ++ s.left :: (gap ++ r.left :: after) := by simp
      have hnext : before₁ ++ s.right ++ gap ++ r.left :: after
          = before₁ ++ s.right ++ (gap ++ r.left :: after) := by simp
      rw [hsplit]
      rcases @ih (before₁ ++ s.right ++ gap) (by simp) with ⟨ks, hks⟩ | ⟨ks, front, hks, hwait⟩
      · rw [hnext] at hks
        exact .inl ⟨j :: ks, .cons before₁ _ hleftmost hs hks⟩
      · rw [hnext] at hks
        exact .inr ⟨j :: ks, front, .cons before₁ _ hleftmost hs hks, hwait⟩
    · have hfirst : ∀ y ∈ before, g.kind y ≠ .nonTerminal := fun y hy hk => hfront ⟨y, hy, hk⟩
      have hwhole : g.LeftmostDerives (j :: js) (before ++ r.right ++ after) c := by
        rw [hform]
        exact .cons before₀ after₀ hleftmost hs rest
      exact .inl ⟨i :: j :: js, .cons before after hfirst hr hwhole⟩

/-- A derivation can be made leftmost up to a symbol that only terminals stand
    before; what comes behind the symbol is derived later. -/
theorem Derives.leftmost_to (hg : g.WellFormed) {word rest : List Symbol}
    (hword : ∀ y ∈ word, g.kind y ≠ .nonTerminal) (h : g.Derives a (word ++ x :: rest)) :
    ∃ is rest', g.LeftmostDerives is a (word ++ x :: rest') ∧ g.Derives rest' rest := by
  generalize hform : word ++ x :: rest = form at h
  induction h with
  | refl form =>
    subst hform
    exact ⟨[], rest, .nil _, .refl rest⟩
  | head step _ ih =>
    obtain ⟨is, rest', hleftmost, hrest⟩ := ih hform
    cases step with
    | @replace before after r hr =>
      obtain ⟨i, hi⟩ := List.getElem?_of_mem hr
      rcases hleftmost.unreplace hg hi with ⟨js, hjs⟩ | ⟨js, front, hjs, ⟨y, hy, hkind⟩, hcut⟩
      · exact ⟨js, rest', hjs, hrest⟩
      · -- the non-terminal in `front` is not in `word`, so the replaced part is behind `x`
        rw [List.append_assoc] at hcut
        obtain ⟨gap, rfl, rfl⟩ : ∃ gap, front = word ++ x :: gap ∧
            rest' = gap ++ (r.right ++ after) := by
          rcases List.append_eq_append_iff.1 hcut with ⟨tail, hfront, htail⟩ | ⟨tail, hw, -⟩
          · cases tail with
            | nil =>
              rw [List.append_nil] at hfront
              exact absurd hkind (hword y (hfront ▸ hy))
            | cons z gap =>
              obtain ⟨rfl, hgap⟩ := List.cons.inj htail
              exact ⟨gap, hfront, hgap⟩
          · exact absurd hkind (hword y (hw ▸ List.mem_append_left _ hy))
        rw [List.append_assoc, List.cons_append] at hjs
        rw [← List.append_assoc] at hrest
        exact ⟨js, gap ++ r.left :: after, hjs, .head (.replace gap after hr) hrest⟩

theorem Derives.leftmost_head (hg : g.WellFormed) {rest : List Symbol}
    (h : g.Derives a (x :: rest)) : ∃ is rest', g.LeftmostDerives is a (x :: rest') := by
  have hform : g.Derives a ([] ++ x :: rest) := h
  obtain ⟨is, rest', hleftmost, -⟩ := hform.leftmost_to hg (by simp)
  exact ⟨is, rest', hleftmost⟩

/-- A word can be derived leftmost. -/
theorem Derives.leftmost_word (hg : g.WellFormed) {word : List Symbol}
    (hword : ∀ y ∈ word, g.kind y ≠ .nonTerminal) (h : g.Derives a word) :
    ∃ is, g.LeftmostDerives is a word := by
  induction h with
  | refl form => exact ⟨[], .nil form⟩
  | head step _ ih =>
    obtain ⟨is, hleftmost⟩ := ih hword
    cases step with
    | replace before after hr =>
      obtain ⟨i, hi⟩ := List.getElem?_of_mem hr
      rcases hleftmost.unreplace hg hi with hjs | ⟨-, front, -, ⟨y, hy, hkind⟩, rfl⟩
      · exact hjs
      · exact absurd hkind (hword y (by simp [hy]))

end Predictive.Grammar
