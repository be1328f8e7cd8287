import Predictive.Proofs.Sets.First

/-! # FOLLOW is exact

    `t` follows a non-terminal if some non-terminal derives a form in which it
    stands right after it (`Grammar.Follows`); `$` also follows what can stand
    at the end of a form that the start symbol derives (`Grammar.CanEnd`).

    * Every family on the way is sound (`Grammar.FollowSound`): what an
      occurrence adds is found in a form by way of the rule it occurs in.
    * The last family is closed under the occurrences
      (`Grammar.FollowClosed`). Then it covers every form that a non-terminal
      derives (`Grammar.Covers`): each non-terminal in it is followed by what
      can begin the rest of the form. A replacement keeps a form covered
      (`Covers.yields`), whether the non-terminal stands before, inside or
      behind the replaced part.

    Main result: `Analysis.follow_exact`.
-/

namespace Predictive

/-- A symbol of a form in three parts stands in one of the parts. -/
theorem cases_of_append_append_eq {before after : List Symbol} {left mid right : List Symbol}
    {x : Symbol} (h : left ++ mid ++ right = before ++ x :: after) :
    (∃ gap, left = before ++ x :: gap ∧ after = gap ++ mid ++ right) ∨
    (∃ gap rest, mid = gap ++ x :: rest ∧ after = rest ++ right) ∨
    (∃ gap, right = gap ++ x :: after) := by
  rcases List.append_eq_append_iff.1 h with ⟨gap, -, hright⟩ | ⟨tail, hleft, hafter⟩
  · exact .inr (.inr ⟨gap, hright⟩)
  · cases tail with
    | nil =>
      rw [List.nil_append] at hafter
      exact .inr (.inr ⟨[], hafter.symm⟩)
    | cons y rest =>
      obtain ⟨rfl, rfl⟩ := List.cons.inj hafter
      rcases List.append_eq_append_iff.1 hleft with ⟨gap, -, hmid⟩ | ⟨tail, hbefore, hrest⟩
      · exact .inr (.inl ⟨gap, rest, hmid, rfl⟩)
      · cases tail with
        | nil =>
          rw [List.nil_append] at hrest
          exact .inr (.inl ⟨[], rest, hrest.symm, rfl⟩)
        | cons y gap =>
          obtain ⟨rfl, rfl⟩ := List.cons.inj hrest
          exact .inl ⟨gap, hbefore, rfl⟩

namespace Grammar

variable {g : Grammar} {x t : Symbol} {form form' : List Symbol}

/-! ### What can come next -/

/-- Some non-terminal derives a form in which `t` stands right after `x`. -/
def Follows (g : Grammar) (x t : Symbol) : Prop :=
  ∃ y ∈ g.nonTerminals, ∃ before after, g.Derives [y] (before ++ x :: t :: after)

/-- The start symbol derives a form that ends with `x`. -/
def CanEnd (g : Grammar) (x : Symbol) : Prop :=
  ∃ start, g.start? = some start ∧ ∃ before, g.Derives [start] (before ++ [x])

/-- `t` follows `x` in a form, or it is the mark behind the last symbol. -/
def CanFollow (g : Grammar) (x t : Symbol) : Prop :=
  g.Follows x t ∨ (t = Symbol.endMark ∧ g.CanEnd x)

/-- What begins the rest of a right side follows the symbol before that rest. -/
theorem CanFollow.of_begins (hg : g.WellFormed) {r : Rule} (hr : r ∈ g.rules)
    {before after : List Symbol} (hright : r.right = before ++ x :: after)
    (ht : g.Begins after t) : g.CanFollow x t := by
  obtain ⟨rest, hrest⟩ := ht
  have hrule : g.Derives [r.left] (before ++ [x] ++ after) := by
    have h := Derives.rule hr
    rw [hright, List.append_cons] at h
    exact h
  have hform := hrule.trans ((Derives.refl (before ++ [x])).append hrest)
  rw [← List.append_cons] at hform
  exact .inl ⟨r.left, mem_nonTerminals.2 (hg.kind_left hr), before, rest, hform⟩

/-- If the rest of a right side vanishes, what follows the left side follows
    the symbol before that rest. -/
theorem CanFollow.of_left {r : Rule} (hr : r ∈ g.rules) {before after : List Symbol}
    (hright : r.right = before ++ x :: after) (hnil : g.Derives after [])
    (h : g.CanFollow r.left t) : g.CanFollow x t := by
  have hrule : g.Derives [r.left] (before ++ [x]) := by
    have h := Derives.rule hr
    rw [hright, List.append_cons] at h
    have hvanish := (Derives.refl (before ++ [x])).append hnil
    rw [List.append_nil] at hvanish
    exact h.trans hvanish
  rcases h with ⟨y, hy, front, back, hform⟩ | ⟨rfl, start, hstart, front, hform⟩
  · -- the left side is replaced where it stands
    have hcontext := hrule.context front (t :: back)
    rw [List.append_assoc front, List.singleton_append] at hcontext
    refine .inl ⟨y, hy, front ++ before, back, ?_⟩
    simpa using hform.trans hcontext
  · have hcontext := hrule.context front []
    rw [List.append_nil, List.append_nil] at hcontext
    refine .inr ⟨rfl, start, hstart, front ++ before, ?_⟩
    simpa using hform.trans hcontext

/-! ### Occurrences -/

theorem mem_occurrencesIn {left : Symbol} {right : List Symbol} {o : Occurrence} :
    o ∈ g.occurrencesIn left right ↔ o.left = left ∧ g.kind o.symbol = .nonTerminal ∧
      ∃ before, right = before ++ o.symbol :: o.rest := by
  induction right with
  | nil => simp [occurrencesIn]
  | cons y right ih =>
    have hcons : (∃ before, y :: right = before ++ o.symbol :: o.rest) ↔
        (y = o.symbol ∧ right = o.rest) ∨ ∃ before, right = before ++ o.symbol :: o.rest := by
      constructor
      · intro h
        obtain ⟨before, h⟩ := h
        cases before with
        | nil => exact .inl (List.cons.inj h)
        | cons z before => exact .inr ⟨before, (List.cons.inj h).2⟩
      · intro h
        rcases h with ⟨rfl, rfl⟩ | ⟨before, rfl⟩
        · exact ⟨[], rfl⟩
        · exact ⟨y :: before, rfl⟩
    rw [occurrencesIn, hcons]
    by_cases hy : g.kind y = .nonTerminal
    · rw [if_pos hy, List.mem_cons, ih]
      constructor
      · intro ho
        rcases ho with rfl | ⟨hleft, hkind, hbefore⟩
        · exact ⟨rfl, hy, .inl ⟨rfl, rfl⟩⟩
        · exact ⟨hleft, hkind, .inr hbefore⟩
      · intro ho
        obtain ⟨hleft, hkind, ⟨hsymbol, hrest⟩ | hbefore⟩ := ho
        · refine .inl ?_
          cases o
          simp_all
        · exact .inr ⟨hleft, hkind, hbefore⟩
    · rw [if_neg hy, ih]
      constructor
      · intro ho
        obtain ⟨hleft, hkind, hbefore⟩ := ho
        exact ⟨hleft, hkind, .inr hbefore⟩
      · intro ho
        obtain ⟨hleft, hkind, ⟨hsymbol, -⟩ | hbefore⟩ := ho
        · exact absurd (hsymbol ▸ hkind) hy
        · exact ⟨hleft, hkind, hbefore⟩

theorem mem_occurrences {o : Occurrence} : o ∈ g.occurrences ↔ g.kind o.symbol = .nonTerminal ∧
    ∃ r ∈ g.rules, o.left = r.left ∧ ∃ before, r.right = before ++ o.symbol :: o.rest := by
  unfold occurrences
  rw [List.mem_flatMap]
  constructor
  · intro h
    obtain ⟨r, hr, ho⟩ := h
    obtain ⟨hleft, hkind, hbefore⟩ := mem_occurrencesIn.1 ho
    exact ⟨hkind, r, hr, hleft, hbefore⟩
  · intro h
    obtain ⟨hkind, r, hr, hleft, hbefore⟩ := h
    exact ⟨r, hr, mem_occurrencesIn.2 ⟨hleft, hkind, hbefore⟩⟩

theorem mem_followAt {first follow : SymbolSets} {o : Occurrence} :
    t ∈ followAt first follow o ↔ t ∈ (first.ofSequence o.rest).1 ∨
      ((first.ofSequence o.rest).2 = true ∧ t ∈ follow.get o.left) := by
  unfold followAt
  simp only
  by_cases hv : (first.ofSequence o.rest).2 = true
  · rw [if_pos hv, SymbolSet.mem_union]
    simp [hv]
  · rw [if_neg hv]
    simp [hv]

/-- Each occurrence gives to the set of its symbol. -/
theorem follow_eq (first : SymbolSets) : g.follow first = saturate
    (SymbolSets.sweep Occurrence.symbol (fun sets o => followAt first sets o) g.occurrences)
    (g.size * g.size + 1) g.followSeed := rfl

theorem length_followSeed : g.followSeed.length = g.size := by
  unfold followSeed
  rw [List.length_map, List.length_range]

theorem mem_get_followSeed : t ∈ g.followSeed.get x ↔
    x < g.size ∧ g.start? = some x ∧ t = Symbol.endMark := by
  by_cases hx : x < g.size
  · have hget : g.followSeed.get x =
        if g.start? = some x then .singleton Symbol.endMark else ∅ := by
      rw [SymbolSets.get_eq_getElem (length_followSeed.symm ▸ hx)]
      unfold followSeed
      rw [List.getElem_map, List.getElem_range]
    rw [hget]
    by_cases hs : g.start? = some x
    · rw [if_pos hs, SymbolSet.mem_singleton]
      simp [hx, hs]
    · rw [if_neg hs]
      simp [hs]
  · constructor
    · intro ht
      have hlt := SymbolSets.lt_length_of_mem_get ht
      rw [length_followSeed] at hlt
      exact absurd hlt hx
    · exact fun ht => absurd ht.1 hx

/-! ### Soundness -/

/-- Every member is a lookahead that can follow a non-terminal. -/
structure FollowSound (g : Grammar) (follow : SymbolSets) : Prop where
  mem : ∀ {x t : Symbol}, t ∈ follow.get x →
    g.kind x = .nonTerminal ∧ t ∈ g.lookaheads ∧ g.CanFollow x t

theorem followSound_followSeed (hg : g.WellFormed) : g.FollowSound g.followSeed := by
  refine ⟨?_⟩
  intro x t ht
  obtain ⟨-, hstart, rfl⟩ := mem_get_followSeed.1 ht
  refine ⟨hg.kind_start hstart, mem_lookaheads.2 (.inr rfl), ?_⟩
  exact .inr ⟨rfl, x, hstart, [], .refl [x]⟩

/-- What an occurrence adds can follow its symbol. -/
theorem FollowSound.add (hg : g.WellFormed) {follow : SymbolSets} (h : g.FollowSound follow)
    {o : Occurrence} (ho : o ∈ g.occurrences) :
    g.FollowSound (follow.add o.symbol (followAt g.first.1 follow o)) := by
  obtain ⟨hkind, r, hr, hleft, before, hright⟩ := mem_occurrences.1 ho
  -- the rest of a right side holds no `ε`
  have hrest : withoutEpsilon o.rest = o.rest := by
    apply withoutEpsilon_eq_self
    intro y hy
    apply hg.ne_epsilon_of_mem_right hr
    rw [hright]
    simp [hy]
  refine ⟨?_⟩
  intro x t ht
  rcases SymbolSets.mem_get_add.1 ht with ht | ⟨rfl, -, ht⟩
  · exact h.mem ht
  · rcases mem_followAt.1 ht with ht | ⟨hv, ht⟩
    · -- it begins the rest of the right side
      obtain ⟨hlook, hbegins⟩ := (mem_ofSequence_first_iff hg).1 ht
      rw [hrest] at hbegins
      exact ⟨hkind, hlook, .of_begins hg hr hright hbegins⟩
    · -- it follows the left side, and the rest vanishes
      have hnil := (vanishes_ofSequence_first_iff hg).1 hv
      rw [hrest] at hnil
      rw [hleft] at ht
      obtain ⟨-, hlook, hcan⟩ := h.mem ht
      exact ⟨hkind, hlook, hcan.of_left hr hright hnil⟩

theorem followSound_follow (hg : g.WellFormed) : g.FollowSound (g.follow g.first.1).1 := by
  rw [follow_eq]
  exact SymbolSets.saturate_sweep_induction (fun _ _ ho hsets => hsets.add hg ho)
    (followSound_followSeed hg)

/-! ### Completeness -/

/-- No occurrence has anything left to add, and `$` follows the start symbol. -/
structure FollowClosed (g : Grammar) (first follow : SymbolSets) : Prop where
  start : ∀ {start : Symbol}, g.start? = some start → Symbol.endMark ∈ follow.get start
  occurrence : ∀ {o : Occurrence}, o ∈ g.occurrences → ∀ {t : Symbol},
    t ∈ followAt first follow o → t ∈ follow.get o.symbol

theorem bounded_followSeed (hg : g.WellFormed) : SymbolSets.Bounded g.size g.followSeed := by
  refine ⟨length_followSeed, ?_⟩
  intro x t ht
  obtain ⟨-, -, rfl⟩ := mem_get_followSeed.1 ht
  exact hg.endMark_lt_size

theorem bounded_followAt (hg : g.WellFormed) {follow : SymbolSets}
    (h : SymbolSets.Bounded g.size follow) {o : Occurrence}
    (ht : t ∈ followAt g.first.1 follow o) : t < g.size := by
  rcases mem_followAt.1 ht with ht | ⟨-, ht⟩
  · obtain ⟨y, -, hy⟩ := SymbolSets.exists_mem_get_of_mem_ofSequence ht
    exact (bounded_first hg).lt hy
  · exact h.lt ht

theorem bounded_follow (hg : g.WellFormed) :
    SymbolSets.Bounded g.size (g.follow g.first.1).1 := by
  rw [follow_eq]
  exact SymbolSets.bounded_saturate_sweep
    (fun _ _ _ hsets _ ht => bounded_followAt hg hsets ht) (bounded_followSeed hg)

theorem followClosed_follow (hg : g.WellFormed) :
    g.FollowClosed g.first.1 (g.follow g.first.1).1 := by
  rw [follow_eq]
  refine ⟨?_, ?_⟩
  · intro start hstart
    apply SymbolSets.within_saturate_sweep.mem
    have hlt : start < g.size := lt_size_of_kind_ne (by rw [hg.kind_start hstart]; decide)
    exact mem_get_followSeed.2 ⟨hlt, hstart, rfl⟩
  · intro o ho t ht
    have hlt : o.symbol < g.size :=
      lt_size_of_kind_ne (by rw [(mem_occurrences.1 ho).1]; decide)
    exact SymbolSets.mem_saturate_sweep (fun _ _ _ hsets _ ht => bounded_followAt hg hsets ht)
      (bounded_followSeed hg) ho hlt ht

/-- Each non-terminal in the form is followed by what can begin the rest of
    the form and, if the rest vanishes, by what is outside of it. -/
def Covers (g : Grammar) (first follow : SymbolSets) (outside : Symbol → Prop)
    (form : List Symbol) : Prop :=
  ∀ before x after, form = before ++ x :: after → g.kind x = .nonTerminal → ∀ t,
    (t ∈ (first.ofSequence after).1 ∨ ((first.ofSequence after).2 = true ∧ outside t)) →
    t ∈ follow.get x

variable {first follow : SymbolSets} {outside : Symbol → Prop}

theorem covers_singleton (h : ∀ t, outside t → t ∈ follow.get x) :
    g.Covers first follow outside [x] := by
  intro before y after hsplit _ t ht
  cases before with
  | cons z before => simp at hsplit
  | nil =>
    obtain ⟨rfl, rfl⟩ := List.cons.inj hsplit
    rcases ht with ht | ⟨-, ht⟩
    · exact absurd ht (SymbolSet.not_mem_empty t)
    · exact h t ht

/-- A replacement keeps a form covered. -/
theorem Covers.yields (hg : g.WellFormed) (hfirst : g.FirstClosed first)
    (hfollow : g.FollowClosed first follow) (h : g.Covers first follow outside form)
    (step : g.Yields form form') : g.Covers first follow outside form' := by
  cases step with
  | replace left right hr =>
    rename_i r
    intro before x after hsplit hkind t ht
    rcases cases_of_append_append_eq hsplit with
      ⟨gap, rfl, rfl⟩ | ⟨gap, rest, hright, rfl⟩ | ⟨gap, rfl⟩
    · -- before the replaced part: the rest of the form was replaced
      have hrest : g.Yields (gap ++ r.left :: right) (gap ++ r.right ++ right) :=
        .replace gap right hr
      obtain ⟨hmem, hnil⟩ := hfirst.yields hrest
      have hold : before ++ x :: gap ++ r.left :: right =
          before ++ x :: (gap ++ r.left :: right) := by
        rw [List.append_assoc, List.cons_append]
      apply h before x _ hold hkind t
      exact ht.imp hmem fun hv => ⟨hnil hv.1, hv.2⟩
    · -- inside: an occurrence in the right side of the rule
      have ho : (⟨r.left, x, rest⟩ : Occurrence) ∈ g.occurrences :=
        mem_occurrences.2 ⟨hkind, r, hr, rfl, gap, hright⟩
      apply hfollow.occurrence ho
      rw [mem_followAt]
      rw [SymbolSets.mem_ofSequence_append, SymbolSets.vanishes_ofSequence_append] at ht
      have houter := h left r.left right rfl (hg.kind_left hr) t
      rcases ht with (ht | ⟨hv, ht⟩) | ⟨⟨hv, hright⟩, ht⟩
      · exact .inl ht
      · exact .inr ⟨hv, houter (.inl ht)⟩
      · exact .inr ⟨hv, houter (.inr ⟨hright, ht⟩)⟩
    · -- behind: nothing has changed after it
      have hold : left ++ r.left :: (gap ++ x :: after) =
          (left ++ r.left :: gap) ++ x :: after := by
        rw [List.append_assoc, List.cons_append]
      exact h _ x after hold hkind t ht

theorem Covers.derives (hg : g.WellFormed) (hfirst : g.FirstClosed first)
    (hfollow : g.FollowClosed first follow) (h : g.Covers first follow outside form)
    (hd : g.Derives form form') : g.Covers first follow outside form' := by
  induction hd with
  | refl => exact h
  | head step _ ih => exact ih (h.yields hg hfirst hfollow step)

/-- A form of the start symbol is covered, with `$` outside. -/
theorem covers_of_derives_start (hg : g.WellFormed) {start : Symbol}
    (hstart : g.start? = some start) (hd : g.Derives [start] form) :
    g.Covers g.first.1 (g.follow g.first.1).1 (· = Symbol.endMark) form := by
  have hfollow := followClosed_follow hg
  have hbegin : g.Covers g.first.1 (g.follow g.first.1).1 (· = Symbol.endMark) [start] := by
    apply covers_singleton
    intro t ht
    rw [ht]
    exact hfollow.start hstart
  exact hbegin.derives hg (firstClosed_first hg) hfollow hd

/-- What comes after a non-terminal in a form of the start symbol is in its
    set: the beginning of the rest, or `$` if the rest vanishes. -/
theorem mem_follow_of_derives_start (hg : g.WellFormed) {start : Symbol}
    (hstart : g.start? = some start) {before after : List Symbol}
    (hd : g.Derives [start] (before ++ x :: after)) (hx : g.kind x = .nonTerminal)
    (ht : t ∈ (g.first.1.ofSequence after).1 ∨
      ((g.first.1.ofSequence after).2 = true ∧ t = Symbol.endMark)) :
    t ∈ (g.follow g.first.1).1.get x :=
  covers_of_derives_start hg hstart hd before x after rfl hx t ht

theorem mem_follow_of_follows (hg : g.WellFormed) (hx : g.kind x = .nonTerminal)
    (hlook : t ∈ g.lookaheads) (h : g.Follows x t) : t ∈ (g.follow g.first.1).1.get x := by
  obtain ⟨y, -, before, after, hd⟩ := h
  have hfirst := firstClosed_first hg
  have hbegin : g.Covers g.first.1 (g.follow g.first.1).1 (fun _ => False) [y] :=
    covers_singleton fun _ h => h.elim
  have hcovers := hbegin.derives hg hfirst (followClosed_follow hg) hd
  exact hcovers before x (t :: after) rfl hx t (.inl (hfirst.mem_ofSequence_cons_self hg hlook))

theorem mem_follow_of_canEnd (hg : g.WellFormed) (hx : g.kind x = .nonTerminal)
    (h : g.CanEnd x) : Symbol.endMark ∈ (g.follow g.first.1).1.get x := by
  obtain ⟨start, hstart, before, hd⟩ := h
  exact mem_follow_of_derives_start hg hstart hd hx (.inr ⟨rfl, rfl⟩)

/-! ### Exactness -/

/-- The whole content of FOLLOW of a non-terminal. -/
theorem mem_follow_iff (hg : g.WellFormed) (hx : g.kind x = .nonTerminal) :
    t ∈ (g.follow g.first.1).1.get x ↔ t ∈ g.lookaheads ∧ g.CanFollow x t := by
  constructor
  · intro ht
    exact ((followSound_follow hg).mem ht).2
  · intro h
    obtain ⟨hlook, hfollows | ⟨rfl, hend⟩⟩ := h
    · exact mem_follow_of_follows hg hx hlook hfollows
    · exact mem_follow_of_canEnd hg hx hend

/-- What is no non-terminal has no members. -/
theorem get_follow_of_kind_ne (hg : g.WellFormed) (hx : g.kind x ≠ .nonTerminal) :
    (g.follow g.first.1).1.get x = ∅ := by
  apply SymbolSet.ext
  intro t
  constructor
  · intro ht
    exact absurd ((followSound_follow hg).mem ht).1 hx
  · intro ht
    exact absurd ht (SymbolSet.not_mem_empty t)

/-- What can follow a symbol that occurs in a form of the start symbol, if
    every non-terminal does: what stands behind it in such a form with `$` at
    its end. -/
theorem canFollow_iff_of_reachable (hg : g.WellFormed) {start : Symbol}
    (hstart : g.start? = some start)
    (hreach : ∀ y ∈ g.nonTerminals, ∃ before after, g.Derives [start] (before ++ y :: after)) :
    g.CanFollow x t ↔ ∃ form before after, g.Derives [start] form ∧
      form ++ [Symbol.endMark] = before ++ x :: t :: after := by
  constructor
  · intro h
    rcases h with ⟨y, hy, before, after, hd⟩ | ⟨rfl, start', hstart', before, hd⟩
    · -- the form of `y` is put into a form of the start symbol
      obtain ⟨front, back, hreached⟩ := hreach y hy
      rw [List.append_cons] at hreached
      refine ⟨_, front ++ before, after ++ back ++ [Symbol.endMark],
        hreached.trans (hd.context front back), ?_⟩
      simp
    · obtain rfl : start = start' := Option.some.inj (hstart.symm.trans hstart')
      exact ⟨_, before, [], hd, by simp⟩
  · intro h
    obtain ⟨form, before, after, hd, hform⟩ := h
    rcases List.eq_nil_or_concat after with rfl | ⟨after, last, rfl⟩
    · -- `t` is the mark at the end
      have hsplit : form ++ [Symbol.endMark] = (before ++ [x]) ++ [t] := by
        rw [hform, List.append_assoc, List.singleton_append]
      obtain ⟨rfl, hmark⟩ := List.append_inj' hsplit rfl
      obtain rfl := (List.cons.inj hmark).1
      exact .inr ⟨rfl, start, hstart, before, hd⟩
    · have hsplit : form ++ [Symbol.endMark] = (before ++ x :: t :: after) ++ [last] := by
        rw [hform, List.concat_eq_append, List.append_assoc, List.cons_append, List.cons_append]
      obtain ⟨rfl, -⟩ := List.append_inj' hsplit rfl
      exact .inl ⟨start, mem_nonTerminals.2 (hg.kind_start hstart), before, after, hd⟩

end Grammar

/-! ### Answers about a text -/

namespace Analysis

/-- FOLLOW of a grammar text is exact. The set of a non-terminal holds the
    lookaheads that stand right after it in a form which some non-terminal
    derives, and `$` if it ends a form which the start symbol derives. It never
    holds `ε`, and other symbols have no members. If every non-terminal occurs
    in a form of the start symbol, then the members are what stands right after
    the non-terminal in such a form, with `$` put at its end. -/
theorem follow_exact (text : String) :
    (∀ x ∈ (ofText text).grammar.nonTerminals,
      (ofText text).followOf x = .ok ((ofText text).follow.get x) ∧
      ∀ t, t ∈ (ofText text).follow.get x ↔
        t ∈ (ofText text).grammar.lookaheads ∧ ((ofText text).grammar.Follows x t ∨
          (t = Symbol.endMark ∧ (ofText text).grammar.CanEnd x))) ∧
    (∀ x, Symbol.epsilon ∉ (ofText text).follow.get x) ∧
    (∀ x, x < (ofText text).grammar.size → x ∉ (ofText text).grammar.nonTerminals →
      (ofText text).followOf x = .ok ∅) ∧
    (∀ start, (ofText text).grammar.start? = some start →
      (∀ y ∈ (ofText text).grammar.nonTerminals,
        ∃ before after, (ofText text).grammar.Derives [start] (before ++ y :: after)) →
      ∀ x ∈ (ofText text).grammar.nonTerminals, ∀ t, t ∈ (ofText text).follow.get x ↔
        t ∈ (ofText text).grammar.lookaheads ∧
          ∃ form before after, (ofText text).grammar.Derives [start] form ∧
            form ++ [Symbol.endMark] = before ++ x :: t :: after) := by
  have hg := @wellFormed_ofText text
  refine ⟨?_, ?_, ?_, ?_⟩
  · intro x hx
    have hkind := Grammar.mem_nonTerminals.1 hx
    refine ⟨followOf_of_lt_size (Grammar.lt_size_of_kind_ne (by rw [hkind]; decide)), ?_⟩
    intro t
    rw [follow_ofText]
    exact Grammar.mem_follow_iff hg hkind
  · intro x hmem
    rw [follow_ofText] at hmem
    have hlook := ((Grammar.followSound_follow hg).mem hmem).2.1
    exact hg.ne_epsilon_of_mem_lookaheads hlook rfl
  · intro x hlt hx
    rw [followOf_of_lt_size hlt, follow_ofText]
    rw [Grammar.get_follow_of_kind_ne hg fun hkind => hx (Grammar.mem_nonTerminals.2 hkind)]
  · intro start hstart hreach x hx t
    rw [follow_ofText, Grammar.mem_follow_iff hg (Grammar.mem_nonTerminals.1 hx),
      Grammar.canFollow_iff_of_reachable hg hstart hreach]

/-- In `S -> A b` with `A -> a S |` both non-terminals, `S` (2) and `A` (3), occur
    in forms of `S`, and `b` (4) is a terminal. -/
theorem follow_exact_of_reachable :
    let a := ofText "S -> A b\nA -> a S |"
    (4 < a.grammar.size ∧ 4 ∉ a.grammar.nonTerminals ∧ a.followOf 4 = .ok ∅) ∧
    (a.grammar.start? = some 2 ∧
      (∀ y ∈ a.grammar.nonTerminals,
        ∃ before after, a.grammar.Derives [2] (before ++ y :: after)) ∧
      3 ∈ a.grammar.nonTerminals ∧
      ∀ t, t ∈ a.follow.get 3 ↔ t ∈ a.grammar.lookaheads ∧
        ∃ form before after, a.grammar.Derives [2] form ∧
          form ++ [Symbol.endMark] = before ++ 3 :: t :: after) := by
  intro a
  obtain ⟨-, -, hother, hreachable⟩ := follow_exact "S -> A b\nA -> a S |"
  have hlt : 4 < a.grammar.size := by decide
  have hterminal : 4 ∉ a.grammar.nonTerminals := by decide
  have hstart : a.grammar.start? = some 2 := by decide
  have hA : 3 ∈ a.grammar.nonTerminals := by decide
  have hreach : ∀ y ∈ a.grammar.nonTerminals,
      ∃ before after, a.grammar.Derives [2] (before ++ y :: after) := by
    have hall : a.grammar.nonTerminals = [2, 3] := by decide
    have hrule : (⟨2, [3, 4]⟩ : Rule) ∈ a.grammar.rules := by decide
    rw [hall]
    intro y hy
    rcases List.mem_cons.1 hy with rfl | hy
    · exact ⟨[], [], .refl [2]⟩
    · obtain rfl := List.mem_singleton.1 hy
      exact ⟨[], [4], .rule hrule⟩
  exact ⟨⟨hlt, hterminal, hother 4 hlt hterminal⟩, hstart, hreach, hA,
    hreachable 2 hstart hreach 3 hA⟩

end Analysis

end Predictive
