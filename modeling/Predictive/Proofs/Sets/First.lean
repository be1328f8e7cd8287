import Predictive.Proofs.Analysis
import Predictive.Proofs.Sets.Sweep

/-! # FIRST is exact

    FIRST is computed by sweeps; what it should be is said by derivations:
    `t` is in FIRST of a form if the form derives one that begins with `t`
    (`Grammar.Begins`), and a form vanishes if it derives the empty form.

    * Every family on the way is sound (`Grammar.FirstSound`): each member that
      a rule adds is reached by a derivation which starts with that rule.
    * The last family is closed under the rules (`Grammar.FirstClosed`), and a
      closed family can be read against the direction of a derivation: what
      begins a form begins every form that derives it (`FirstClosed.derives`).

    Together they say that a sequence is read exactly
    (`mem_ofSequence_first_iff`, `vanishes_ofSequence_first_iff`), and so is
    every single symbol (`mem_first_iff`). Main result: `Analysis.first_exact`,
    the same for the answers that an analysis of a text gives.
-/

namespace Predictive

variable {g : Grammar} {x t : Symbol} {xs ys : List Symbol}

/-! ### What a form can begin with -/

namespace Grammar

/-- The form derives one that begins with `t`. -/
def Begins (g : Grammar) (form : List Symbol) (t : Symbol) : Prop :=
  ∃ rest, g.Derives form (t :: rest)

/-- The form that a sequence stands for: `ε` stands for nothing. -/
def withoutEpsilon (xs : List Symbol) : List Symbol := xs.filter (· ≠ Symbol.epsilon)

theorem withoutEpsilon_cons_epsilon :
    withoutEpsilon (Symbol.epsilon :: xs) = withoutEpsilon xs := by
  unfold withoutEpsilon
  rw [List.filter_cons_of_neg (by decide)]

theorem withoutEpsilon_cons_of_ne (h : x ≠ Symbol.epsilon) :
    withoutEpsilon (x :: xs) = x :: withoutEpsilon xs := by
  unfold withoutEpsilon
  rw [List.filter_cons_of_pos (by simpa using h)]

theorem withoutEpsilon_cons :
    withoutEpsilon (x :: xs) = withoutEpsilon [x] ++ withoutEpsilon xs := by
  unfold withoutEpsilon
  rw [← List.filter_append, List.singleton_append]

theorem withoutEpsilon_eq_self (h : ∀ y ∈ xs, y ≠ Symbol.epsilon) : withoutEpsilon xs = xs := by
  unfold withoutEpsilon
  rw [List.filter_eq_self]
  intro y hy
  simpa using h y hy

theorem WellFormed.withoutEpsilon_right (hg : g.WellFormed) {r : Rule} (hr : r ∈ g.rules) :
    withoutEpsilon r.right = r.right :=
  withoutEpsilon_eq_self fun _ hy => hg.ne_epsilon_of_mem_right hr hy

theorem WellFormed.ne_epsilon_of_kind (hg : g.WellFormed) (h : g.kind x = .nonTerminal) :
    x ≠ Symbol.epsilon := by
  intro heq
  rw [heq, hg.kind_epsilon] at h
  cases h

theorem WellFormed.withoutEpsilon_left (hg : g.WellFormed) {r : Rule} (hr : r ∈ g.rules) :
    withoutEpsilon [r.left] = [r.left] :=
  withoutEpsilon_cons_of_ne (hg.ne_epsilon_of_kind (hg.kind_left hr))

/-- What begins a form still begins it when more follows. -/
theorem Begins.append (h : g.Begins xs t) (ys : List Symbol) : g.Begins (xs ++ ys) t := by
  obtain ⟨rest, hrest⟩ := h
  exact ⟨rest ++ ys, hrest.append (.refl ys)⟩

/-- What vanishes hides nothing of what follows it. -/
theorem Begins.append_of_derives_nil (h : g.Begins ys t) (hxs : g.Derives xs []) :
    g.Begins (xs ++ ys) t := by
  obtain ⟨rest, hrest⟩ := h
  exact ⟨rest, hxs.append hrest⟩

theorem Begins.of_derives (h : g.Begins ys t) (hxs : g.Derives xs ys) : g.Begins xs t := by
  obtain ⟨rest, hrest⟩ := h
  exact ⟨rest, hxs.trans hrest⟩

end Grammar

/-! ### Reading a sequence -/

namespace SymbolSets

variable {first : SymbolSets}

theorem vanishing_iff : first.vanishing x = true ↔ Symbol.epsilon ∈ first.get x := by
  unfold vanishing
  exact decide_eq_true_iff

theorem mem_ofSequence_cons : t ∈ (first.ofSequence (x :: xs)).1 ↔
    (t ∈ first.get x ∧ t ≠ Symbol.epsilon) ∨
      (first.vanishing x = true ∧ t ∈ (first.ofSequence xs).1) := by
  rw [ofSequence]
  by_cases hx : first.vanishing x = true
  · rw [if_pos hx]
    simp [hx]
  · rw [if_neg hx]
    -- the set of a symbol that cannot vanish is taken as it is
    have hne : t ∈ first.get x → t ≠ Symbol.epsilon := by
      intro ht heq
      rw [heq] at ht
      exact hx (vanishing_iff.2 ht)
    simp only [hx, Bool.false_eq_true, false_and, or_false]
    exact ⟨fun ht => ⟨ht, hne ht⟩, fun ht => ht.1⟩

theorem vanishes_ofSequence_cons : (first.ofSequence (x :: xs)).2 = true ↔
    first.vanishing x = true ∧ (first.ofSequence xs).2 = true := by
  rw [ofSequence]
  by_cases hx : first.vanishing x = true
  · rw [if_pos hx]
    simp [hx]
  · rw [if_neg hx]
    simp [hx]

theorem mem_ofSequence_append : t ∈ (first.ofSequence (xs ++ ys)).1 ↔
    t ∈ (first.ofSequence xs).1 ∨
      ((first.ofSequence xs).2 = true ∧ t ∈ (first.ofSequence ys).1) := by
  induction xs with
  | nil => simp [ofSequence]
  | cons x xs ih =>
    rw [List.cons_append, mem_ofSequence_cons, ih, mem_ofSequence_cons, vanishes_ofSequence_cons,
      and_or_left, or_assoc, and_assoc]

theorem vanishes_ofSequence_append : (first.ofSequence (xs ++ ys)).2 = true ↔
    (first.ofSequence xs).2 = true ∧ (first.ofSequence ys).2 = true := by
  induction xs with
  | nil => simp [ofSequence]
  | cons x xs ih =>
    rw [List.cons_append, vanishes_ofSequence_cons, ih, vanishes_ofSequence_cons, and_assoc]

theorem mem_ofSequence_singleton :
    t ∈ (first.ofSequence [x]).1 ↔ t ∈ first.get x ∧ t ≠ Symbol.epsilon := by
  rw [mem_ofSequence_cons]
  simp [ofSequence]

theorem vanishes_ofSequence_singleton :
    (first.ofSequence [x]).2 = true ↔ Symbol.epsilon ∈ first.get x := by
  rw [vanishes_ofSequence_cons, vanishing_iff]
  simp [ofSequence]

theorem ne_epsilon_of_mem_ofSequence (h : t ∈ (first.ofSequence xs).1) : t ≠ Symbol.epsilon := by
  induction xs with
  | nil => exact absurd h (SymbolSet.not_mem_empty t)
  | cons x xs ih =>
    rcases mem_ofSequence_cons.1 h with ⟨-, hne⟩ | ⟨-, hrest⟩
    · exact hne
    · exact ih hrest

/-- Members of the sequence are members of the sets. -/
theorem exists_mem_get_of_mem_ofSequence (h : t ∈ (first.ofSequence xs).1) :
    ∃ x ∈ xs, t ∈ first.get x := by
  induction xs with
  | nil => exact absurd h (SymbolSet.not_mem_empty t)
  | cons x xs ih =>
    rcases mem_ofSequence_cons.1 h with ⟨hx, -⟩ | ⟨-, hrest⟩
    · exact ⟨x, by simp, hx⟩
    · obtain ⟨y, hy, hget⟩ := ih hrest
      exact ⟨y, by simp [hy], hget⟩

end SymbolSets

namespace Grammar

theorem mem_firstOfRight {first : SymbolSets} {right : List Symbol} :
    t ∈ firstOfRight first right ↔ t ∈ (first.ofSequence right).1 ∨
      (t = Symbol.epsilon ∧ (first.ofSequence right).2 = true) := by
  unfold firstOfRight
  simp only
  by_cases hv : (first.ofSequence right).2 = true
  · rw [if_pos hv, SymbolSet.mem_insert]
    simp only [hv, and_true]
    exact or_comm
  · rw [if_neg hv]
    simp [hv]

/-! ### Soundness -/

/-- Every member is reached by a derivation. -/
structure FirstSound (g : Grammar) (first : SymbolSets) : Prop where
  begins : ∀ {x t : Symbol}, t ∈ first.get x → t ≠ Symbol.epsilon →
    t ∈ g.lookaheads ∧ g.Begins (withoutEpsilon [x]) t
  vanishes : ∀ {x : Symbol}, Symbol.epsilon ∈ first.get x → g.Derives (withoutEpsilon [x]) []

namespace FirstSound

variable {first : SymbolSets}

theorem derives_nil (h : g.FirstSound first) (hv : (first.ofSequence xs).2 = true) :
    g.Derives (withoutEpsilon xs) [] := by
  induction xs with
  | nil => exact .refl []
  | cons x xs ih =>
    obtain ⟨hx, hxs⟩ := SymbolSets.vanishes_ofSequence_cons.1 hv
    rw [withoutEpsilon_cons]
    exact (h.vanishes (SymbolSets.vanishing_iff.1 hx)).append (ih hxs)

theorem begins_of_mem (h : g.FirstSound first) (ht : t ∈ (first.ofSequence xs).1) :
    t ∈ g.lookaheads ∧ g.Begins (withoutEpsilon xs) t := by
  induction xs with
  | nil => exact absurd ht (SymbolSet.not_mem_empty t)
  | cons x xs ih =>
    rw [withoutEpsilon_cons]
    rcases SymbolSets.mem_ofSequence_cons.1 ht with ⟨hx, hne⟩ | ⟨hx, hxs⟩
    · obtain ⟨hlook, hbegins⟩ := h.begins hx hne
      exact ⟨hlook, hbegins.append _⟩
    · obtain ⟨hlook, hbegins⟩ := ih hxs
      have hnil := h.vanishes (SymbolSets.vanishing_iff.1 hx)
      exact ⟨hlook, hbegins.append_of_derives_nil hnil⟩

/-- What a rule adds is reached through that rule. -/
theorem add (hg : g.WellFormed) (h : g.FirstSound first) {r : Rule} (hr : r ∈ g.rules) :
    g.FirstSound (first.add r.left (firstOfRight first r.right)) := by
  have hright := hg.withoutEpsilon_right hr
  have hleft := hg.withoutEpsilon_left hr
  -- only the set of the left side gets new members
  refine ⟨?_, ?_⟩
  · intro x t ht hne
    rcases SymbolSets.mem_get_add.1 ht with ht | ⟨rfl, -, ht⟩
    · exact h.begins ht hne
    · rcases mem_firstOfRight.1 ht with ht | ⟨rfl, -⟩
      · obtain ⟨hlook, hbegins⟩ := h.begins_of_mem ht
        rw [hright] at hbegins
        rw [hleft]
        exact ⟨hlook, hbegins.of_derives (.rule hr)⟩
      · exact absurd rfl hne
  · intro x ht
    rcases SymbolSets.mem_get_add.1 ht with ht | ⟨rfl, -, ht⟩
    · exact h.vanishes ht
    · rcases mem_firstOfRight.1 ht with ht | ⟨-, hv⟩
      · exact absurd rfl (SymbolSets.ne_epsilon_of_mem_ofSequence ht)
      · have hnil := h.derives_nil hv
        rw [hright] at hnil
        rw [hleft]
        exact (Derives.rule hr).trans hnil

end FirstSound

theorem length_firstSeed : g.firstSeed.length = g.size := by
  unfold firstSeed
  rw [List.length_map, List.length_range]

theorem mem_get_firstSeed :
    t ∈ g.firstSeed.get x ↔ x < g.size ∧ g.kind x ≠ .nonTerminal ∧ t = x := by
  by_cases hx : x < g.size
  · have hget : g.firstSeed.get x = if g.kind x = .nonTerminal then ∅ else .singleton x := by
      rw [SymbolSets.get_eq_getElem (length_firstSeed.symm ▸ hx)]
      unfold firstSeed
      rw [List.getElem_map, List.getElem_range]
    rw [hget]
    by_cases hk : g.kind x = .nonTerminal
    · rw [if_pos hk]
      simp [hk]
    · rw [if_neg hk, SymbolSet.mem_singleton]
      simp [hx, hk]
  · constructor
    · intro ht
      have hlt := SymbolSets.lt_length_of_mem_get ht
      rw [length_firstSeed] at hlt
      exact absurd hlt hx
    · exact fun ht => absurd ht.1 hx

theorem firstSound_firstSeed (hg : g.WellFormed) : g.FirstSound g.firstSeed := by
  refine ⟨?_, ?_⟩
  · intro x t ht hne
    obtain ⟨hlt, hkind, rfl⟩ := mem_get_firstSeed.1 ht
    rw [withoutEpsilon_cons_of_ne hne]
    exact ⟨hg.mem_lookaheads_of_kind hlt hne hkind, [], .refl _⟩
  · intro x ht
    obtain ⟨-, -, rfl⟩ := mem_get_firstSeed.1 ht
    exact .refl []

/-- Each rule gives to the set of its left side what begins its right side. -/
theorem first_eq : g.first = saturate
    (SymbolSets.sweep Rule.left (fun sets r => firstOfRight sets r.right) g.rules)
    (g.size * g.size + 1) g.firstSeed := rfl

theorem firstSound_first (hg : g.WellFormed) : g.FirstSound g.first.1 := by
  rw [first_eq]
  exact SymbolSets.saturate_sweep_induction (fun _ _ hr hsets => hsets.add hg hr)
    (firstSound_firstSeed hg)

/-! ### Completeness -/

/-- No rule has anything left to add, and what is no non-terminal begins with
    itself. -/
structure FirstClosed (g : Grammar) (first : SymbolSets) : Prop where
  self : ∀ {x : Symbol}, x < g.size → g.kind x ≠ .nonTerminal → x ∈ first.get x
  rule : ∀ {r : Rule}, r ∈ g.rules → ∀ {t : Symbol}, t ∈ firstOfRight first r.right →
    t ∈ first.get r.left

theorem bounded_firstOfRight (hg : g.WellFormed) {first : SymbolSets}
    (h : SymbolSets.Bounded g.size first) {right : List Symbol}
    (ht : t ∈ firstOfRight first right) : t < g.size := by
  rcases mem_firstOfRight.1 ht with ht | ⟨rfl, -⟩
  · obtain ⟨x, -, hx⟩ := SymbolSets.exists_mem_get_of_mem_ofSequence ht
    exact h.lt hx
  · exact hg.epsilon_lt_size

theorem bounded_firstSeed : SymbolSets.Bounded g.size g.firstSeed := by
  refine ⟨length_firstSeed, ?_⟩
  intro x t ht
  obtain ⟨hlt, -, rfl⟩ := mem_get_firstSeed.1 ht
  exact hlt

theorem bounded_first (hg : g.WellFormed) : SymbolSets.Bounded g.size g.first.1 := by
  rw [first_eq]
  exact SymbolSets.bounded_saturate_sweep (fun _ _ _ hsets _ ht => bounded_firstOfRight hg hsets ht)
    bounded_firstSeed

theorem firstClosed_first (hg : g.WellFormed) : g.FirstClosed g.first.1 := by
  rw [first_eq]
  refine ⟨?_, ?_⟩
  · intro x hlt hkind
    apply SymbolSets.within_saturate_sweep.mem
    exact mem_get_firstSeed.2 ⟨hlt, hkind, rfl⟩
  · intro r hr t ht
    have hlt : r.left < g.size := lt_size_of_kind_ne (by rw [hg.kind_left hr]; decide)
    exact SymbolSets.mem_saturate_sweep
      (fun _ _ _ hsets _ ht => bounded_firstOfRight hg hsets ht) bounded_firstSeed hr hlt ht

namespace FirstClosed

variable {first : SymbolSets}

/-- A replacement takes away neither beginnings nor the chance to vanish. -/
theorem yields (h : g.FirstClosed first) (step : g.Yields xs ys) :
    (∀ {t}, t ∈ (first.ofSequence ys).1 → t ∈ (first.ofSequence xs).1) ∧
      ((first.ofSequence ys).2 = true → (first.ofSequence xs).2 = true) := by
  cases step with
  | replace before after hr =>
    rename_i r
    have hmem : ∀ {t}, t ∈ (first.ofSequence r.right).1 → t ∈ (first.ofSequence [r.left]).1 := by
      intro t ht
      rw [SymbolSets.mem_ofSequence_singleton]
      exact ⟨h.rule hr (mem_firstOfRight.2 (.inl ht)), SymbolSets.ne_epsilon_of_mem_ofSequence ht⟩
    have hnil : (first.ofSequence r.right).2 = true → (first.ofSequence [r.left]).2 = true := by
      intro hv
      rw [SymbolSets.vanishes_ofSequence_singleton]
      exact h.rule hr (mem_firstOfRight.2 (.inr ⟨rfl, hv⟩))
    -- the form is read part by part: before, the replaced part, after
    rw [List.append_cons before r.left after]
    simp only [List.append_assoc, SymbolSets.mem_ofSequence_append,
      SymbolSets.vanishes_ofSequence_append]
    constructor
    · intro t ht
      rcases ht with ht | ⟨hbefore, ht | ⟨hright, ht⟩⟩
      · exact .inl ht
      · exact .inr ⟨hbefore, .inl (hmem ht)⟩
      · exact .inr ⟨hbefore, .inr ⟨hnil hright, ht⟩⟩
    · intro h
      obtain ⟨hbefore, hright, hafter⟩ := h
      exact ⟨hbefore, hnil hright, hafter⟩

/-- A closed family can be read against the direction of a derivation. -/
theorem derives (h : g.FirstClosed first) (hd : g.Derives xs ys) :
    (∀ {t}, t ∈ (first.ofSequence ys).1 → t ∈ (first.ofSequence xs).1) ∧
      ((first.ofSequence ys).2 = true → (first.ofSequence xs).2 = true) := by
  induction hd with
  | refl => exact ⟨id, id⟩
  | head step _ ih =>
    obtain ⟨hmem, hnil⟩ := h.yields step
    exact ⟨fun ht => hmem (ih.1 ht), fun hv => hnil (ih.2 hv)⟩

/-- A lookahead begins each sequence that it stands in front of. -/
theorem mem_ofSequence_cons_self (hg : g.WellFormed) (h : g.FirstClosed first)
    (ht : t ∈ g.lookaheads) : t ∈ (first.ofSequence (t :: xs)).1 := by
  have hself := h.self (hg.lt_size_of_mem_lookaheads ht)
    (hg.kind_ne_nonTerminal_of_mem_lookaheads ht)
  exact SymbolSets.mem_ofSequence_cons.2 (.inl ⟨hself, hg.ne_epsilon_of_mem_lookaheads ht⟩)

/-- Leaving `ε` out of a sequence adds nothing. -/
theorem of_withoutEpsilon (hg : g.WellFormed) (h : g.FirstClosed first) :
    (∀ {t}, t ∈ (first.ofSequence (withoutEpsilon xs)).1 → t ∈ (first.ofSequence xs).1) ∧
      ((first.ofSequence (withoutEpsilon xs)).2 = true → (first.ofSequence xs).2 = true) := by
  induction xs with
  | nil => exact ⟨id, id⟩
  | cons x xs ih =>
    by_cases hx : x = Symbol.epsilon
    · subst hx
      have hself : Symbol.epsilon ∈ first.get Symbol.epsilon :=
        h.self hg.epsilon_lt_size (by rw [hg.kind_epsilon]; decide)
      have hv := SymbolSets.vanishing_iff.2 hself
      rw [withoutEpsilon_cons_epsilon, SymbolSets.vanishes_ofSequence_cons]
      refine ⟨fun ht => SymbolSets.mem_ofSequence_cons.2 (.inr ⟨hv, ih.1 ht⟩), ?_⟩
      exact fun hrest => ⟨hv, ih.2 hrest⟩
    · rw [withoutEpsilon_cons_of_ne hx]
      simp only [SymbolSets.mem_ofSequence_cons, SymbolSets.vanishes_ofSequence_cons]
      constructor
      · intro t ht
        rcases ht with ht | ⟨hv, ht⟩
        · exact .inl ht
        · exact .inr ⟨hv, ih.1 ht⟩
      · intro h
        obtain ⟨hv, hrest⟩ := h
        exact ⟨hv, ih.2 hrest⟩

end FirstClosed

/-! ### Exactness -/

theorem mem_ofSequence_first_iff (hg : g.WellFormed) : t ∈ (g.first.1.ofSequence xs).1 ↔
    t ∈ g.lookaheads ∧ g.Begins (withoutEpsilon xs) t := by
  constructor
  · exact (firstSound_first hg).begins_of_mem
  · intro h
    obtain ⟨ht, rest, hrest⟩ := h
    have hclosed := firstClosed_first hg
    -- `t` begins the last form, so it begins every form on the way to it
    apply (hclosed.of_withoutEpsilon hg).1
    apply (hclosed.derives hrest).1
    exact hclosed.mem_ofSequence_cons_self hg ht

theorem vanishes_ofSequence_first_iff (hg : g.WellFormed) :
    (g.first.1.ofSequence xs).2 = true ↔ g.Derives (withoutEpsilon xs) [] := by
  constructor
  · exact (firstSound_first hg).derives_nil
  · intro hnil
    have hclosed := firstClosed_first hg
    apply (hclosed.of_withoutEpsilon hg).2
    exact (hclosed.derives hnil).2 rfl

/-- The whole content of FIRST of a non-terminal. -/
theorem mem_first_iff (hg : g.WellFormed) (hx : g.kind x = .nonTerminal) :
    t ∈ g.first.1.get x ↔ (t ∈ g.lookaheads ∧ g.Begins [x] t) ∨
      (t = Symbol.epsilon ∧ g.Derives [x] []) := by
  have hform : withoutEpsilon [x] = [x] := withoutEpsilon_cons_of_ne (hg.ne_epsilon_of_kind hx)
  have hbegins := @mem_ofSequence_first_iff g t [x] hg
  have hnil := @vanishes_ofSequence_first_iff g [x] hg
  rw [hform, SymbolSets.mem_ofSequence_singleton] at hbegins
  rw [hform, SymbolSets.vanishes_ofSequence_singleton] at hnil
  rw [← hbegins]
  by_cases ht : t = Symbol.epsilon
  · subst ht
    simp [← hnil]
  · simp [ht]

end Grammar

/-! ### Answers about a text -/

namespace Analysis

/-- A question about a sequence of symbols of the grammar has an answer. -/
theorem firstOfSequence_ofText {text : String} (h : ∀ y ∈ xs, y < (ofText text).grammar.size) :
    (ofText text).firstOfSequence xs = .ok ((ofText text).first.ofSequence xs) := by
  unfold firstOfSequence
  rw [guarded_eq_ok_iff]
  refine ⟨?_, rfl⟩
  unfold SymbolSets.sequenceFault?
  cases hfind : xs.find? fun y => !(ofText text).first.vanishing y with
  | none => rfl
  | some y =>
    have hlt := h y (List.mem_of_find?_eq_some hfind)
    have hlength := (Grammar.bounded_first (@wellFormed_ofText text)).length_eq
    rw [Option.bind_some, Fault.ofIndex?_eq_none, first_ofText, hlength]
    exact hlt

/-- FIRST of a grammar text is exact. The set of a non-terminal holds the
    lookaheads that begin one of the forms that it derives, and `ε` just if it
    derives the empty form. A sequence of symbols is answered by the lookaheads
    that begin one of the forms that it derives, and by whether it derives the
    empty form. -/
theorem first_exact (text : String) :
    (∀ x ∈ (ofText text).grammar.nonTerminals, ∃ s, (ofText text).firstOf x = .ok s ∧
      ∀ t, t ∈ s ↔
        (t ∈ (ofText text).grammar.lookaheads ∧ (ofText text).grammar.Begins [x] t) ∨
        (t = Symbol.epsilon ∧ (ofText text).grammar.Derives [x] [])) ∧
    (∀ xs, (∀ x ∈ xs, x < (ofText text).grammar.size) →
      ∃ s vanishes, (ofText text).firstOfSequence xs = .ok (s, vanishes) ∧
        (∀ t, t ∈ s ↔ t ∈ (ofText text).grammar.lookaheads ∧
          (ofText text).grammar.Begins (Grammar.withoutEpsilon xs) t) ∧
        (vanishes = true ↔
          (ofText text).grammar.Derives (Grammar.withoutEpsilon xs) [])) := by
  have hg := @wellFormed_ofText text
  constructor
  · intro x hx
    have hkind := Grammar.mem_nonTerminals.1 hx
    have hlt : x < (ofText text).grammar.size :=
      Grammar.lt_size_of_kind_ne (by rw [hkind]; decide)
    refine ⟨(ofText text).first.get x, firstOf_of_lt_size hlt, ?_⟩
    intro t
    rw [first_ofText]
    exact Grammar.mem_first_iff hg hkind
  · intro xs hxs
    refine ⟨_, _, firstOfSequence_ofText hxs, ?_, ?_⟩
    · intro t
      rw [first_ofText]
      exact Grammar.mem_ofSequence_first_iff hg
    · rw [first_ofText]
      exact Grammar.vanishes_ofSequence_first_iff hg

/-- In `S -> A b` with `A -> a S |` the symbols are `S` (2), `A` (3), `b` (4) and
    `a` (5). FIRST of `A` holds `ε` and `a`. The sequence `A ε b` begins with `b` or
    `a`, and does not vanish. -/
theorem first_exact_of_vanishing :
    let a := ofText "S -> A b\nA -> a S |"
    (3 ∈ a.grammar.nonTerminals ∧
      a.firstOf 3 = .ok (.insert Symbol.epsilon (.singleton 5)) ∧
      ∀ t, t ∈ SymbolSet.insert Symbol.epsilon (.singleton 5) ↔
        (t ∈ a.grammar.lookaheads ∧ a.grammar.Begins [3] t) ∨
        (t = Symbol.epsilon ∧ a.grammar.Derives [3] [])) ∧
    ((∀ x ∈ [3, 0, 4], x < a.grammar.size) ∧
      a.firstOfSequence [3, 0, 4] = .ok (.insert 4 (.singleton 5), false) ∧
      (∀ t, t ∈ SymbolSet.insert 4 (.singleton 5) ↔
        t ∈ a.grammar.lookaheads ∧ a.grammar.Begins [3, 4] t) ∧
      ¬a.grammar.Derives [3, 4] []) := by
  intro a
  have hA : 3 ∈ a.grammar.nonTerminals := by decide
  have hxs : ∀ x ∈ [3, 0, 4], x < a.grammar.size := by decide
  have hfirst : a.firstOf 3 = .ok (.insert Symbol.epsilon (.singleton 5)) := by decide
  have hsequence : a.firstOfSequence [3, 0, 4] = .ok (.insert 4 (.singleton 5), false) := by decide
  obtain ⟨hsets, hsequences⟩ := first_exact "S -> A b\nA -> a S |"
  obtain ⟨s, hs, hexact⟩ := hsets 3 hA
  obtain rfl := Except.ok.inj (hs.symm.trans hfirst)
  obtain ⟨s, vanishes, hs, hbegins, hvanishes⟩ := hsequences [3, 0, 4] hxs
  obtain ⟨rfl, rfl⟩ := Prod.mk.inj (Except.ok.inj (hs.symm.trans hsequence))
  refine ⟨⟨hA, hfirst, hexact⟩, hxs, hsequence, hbegins, ?_⟩
  intro hnil
  exact Bool.false_ne_true (hvanishes.2 hnil)

end Analysis

end Predictive
