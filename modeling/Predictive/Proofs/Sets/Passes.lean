import Mathlib.Data.List.Perm.Subperm
import Mathlib.Logic.Function.Iterate
import Predictive.Proofs.Sets.Sweep

/-! # How many passes a family of sets takes

    The sets of a grammar are computed by a loop with a flag: each pass goes
    through the items in order and raises the flag when some set gets longer, and
    the loop is left after the first pass that does not raise it (`Loop`,
    `SymbolSets.pass`). Sweeping with fuel is this loop, as long as the fuel is
    not used up (`loop_saturate`).

    Every pass but the last adds some member, but this alone only gives a bound
    that is quadratic in the number of symbols. Consider instead one symbol `t`,
    and suppose that what an item gives of `t` depends on nothing but the places
    that hold `t` already (`SymbolSets.Autonomous`). Then a pass in which no set
    gets `t` is followed by no other in which one does
    (`Autonomous.sameAt_iterate`). So `t` spreads in at most as many passes as
    there are targets (`Autonomous.sameAt_of_card_le`), and all such symbols
    spread in the same passes.
-/

namespace Predictive

/-! ### The loop -/

/-- A loop that makes passes up to the first one which reports no change: it
    starts with the first value, makes this number of passes, and ends with the
    second value. -/
inductive Loop {α : Type} (pass : α → α × Bool) : α → Nat → α → Prop where
  | last {a : α} (same : (pass a).2 = false) : Loop pass a 1 (pass a).1
  | more {a b : α} {n : Nat} (changed : (pass a).2 = true) (rest : Loop pass (pass a).1 n b) :
      Loop pass a (n + 1) b

/-- If a sweep changes nothing after `n` sweeps, and there is fuel for one more,
    then sweeping with fuel is the loop, and the loop makes at most `n + 1`
    passes. -/
theorem loop_saturate {α : Type} [DecidableEq α] {sweep : α → α} {pass : α → α × Bool}
    (hpass : ∀ a, pass a = (sweep a, decide (sweep a ≠ a))) {n fuel : Nat} {a : α}
    (hfix : sweep (sweep^[n] a) = sweep^[n] a) (hfuel : n < fuel) :
    Loop pass a (saturate sweep fuel a).2 (saturate sweep fuel a).1 ∧
      (saturate sweep fuel a).2 ≤ n + 1 := by
  have hvalue : ∀ a, (pass a).1 = sweep a := fun a => by rw [hpass]
  have hflag : ∀ a, (pass a).2 = decide (sweep a ≠ a) := fun a => by rw [hpass]
  induction n generalizing a fuel with
  | zero =>
    -- the first pass changes nothing
    obtain ⟨fuel, rfl⟩ : ∃ k, fuel = k + 1 := ⟨fuel - 1, by omega⟩
    have hsame : sweep a = a := hfix
    have hlast : Loop pass a 1 (pass a).1 := .last (by rw [hflag]; simp [hsame])
    rw [hvalue, hsame] at hlast
    rw [saturate, if_pos hsame]
    exact ⟨hlast, Nat.le_refl 1⟩
  | succ n ih =>
    obtain ⟨fuel, rfl⟩ : ∃ k, fuel = k + 1 := ⟨fuel - 1, by omega⟩
    rw [saturate]
    by_cases hsame : sweep a = a
    · have hlast : Loop pass a 1 (pass a).1 := .last (by rw [hflag]; simp [hsame])
      rw [hvalue, hsame] at hlast
      rw [if_pos hsame]
      exact ⟨hlast, by show 1 ≤ n + 1 + 1; omega⟩
    · rw [Function.iterate_succ_apply] at hfix
      obtain ⟨hloop, hle⟩ := ih hfix (show n < fuel by omega)
      have hrest : Loop pass (pass a).1 (saturate sweep fuel (sweep a)).2
          (saturate sweep fuel (sweep a)).1 := by rwa [hvalue]
      rw [if_neg hsame]
      exact ⟨.more (by rw [hflag]; simp [hsame]) hrest, by show _ + 1 ≤ n + 1 + 1; omega⟩

/-- A set that gets no longer gets no new member. -/
theorem SymbolSet.eq_of_length_eq {s t : SymbolSet} (h : ∀ x ∈ s, x ∈ t)
    (hlength : t.toList.length = s.toList.length) : t = s := by
  have hnodup : s.toList.Nodup := s.ascending.imp fun hlt => Nat.ne_of_lt hlt
  have hperm : s.toList.Perm t.toList :=
    (List.subperm_of_subset hnodup h).perm_of_length_le (Nat.le_of_eq hlength)
  exact SymbolSet.ext fun x => hperm.mem_iff.symm

namespace SymbolSets

variable {ι : Type} (target : ι → Symbol) (gives : SymbolSets → ι → SymbolSet)

/-- One pass of the loop with its flag. Each item gives to the set of its target;
    the flag is raised when that set gets longer. -/
def pass (items : List ι) (sets : SymbolSets) : SymbolSets × Bool :=
  items.foldl
    (fun (sets, changed) i =>
      let next := sets.add (target i) (gives sets i)
      (next, changed ||
        (next.get (target i)).toList.length != (sets.get (target i)).toList.length))
    (sets, false)

variable {target gives} {items : List ι} {sets : SymbolSets}

/-- The length of one set tells whether the family has changed. -/
theorem length_get_add_eq_iff {x : Symbol} {s : SymbolSet} :
    ((sets.add x s).get x).toList.length = (sets.get x).toList.length ↔ sets.add x s = sets := by
  constructor
  · intro hlength
    have hget : (sets.add x s).get x = sets.get x :=
      SymbolSet.eq_of_length_eq (fun _ ht => (within_add sets x s).mem ht) hlength
    refine Within.antisymm ⟨length_add sets x s, ?_⟩ (within_add sets x s)
    intro y t ht
    rcases mem_get_add.1 ht with hold | ⟨rfl, -, -⟩
    · exact hold
    · rwa [hget] at ht
  · intro heq
    rw [heq]

/-- A pass is a sweep, and its flag says whether the sweep changes anything. -/
theorem pass_eq (items : List ι) (sets : SymbolSets) : pass target gives items sets =
    (sweep target gives items sets, decide (sweep target gives items sets ≠ sets)) := by
  -- for the induction the flag may be raised already
  have hpass : ∀ changed, items.foldl
      (fun (sets, changed) i =>
        let next := sets.add (target i) (gives sets i)
        (next, changed ||
          (next.get (target i)).toList.length != (sets.get (target i)).toList.length))
      (sets, changed) =
      (sweep target gives items sets,
        changed || decide (sweep target gives items sets ≠ sets)) := by
    induction items generalizing sets with
    | nil => simp [sweep]
    | cons i items ih =>
      intro changed
      have hnext : sweep target gives (i :: items) sets =
          sweep target gives items (sets.add (target i) (gives sets i)) := rfl
      rw [List.foldl_cons, hnext]
      simp only
      rw [ih]
      -- later items take nothing away, so a change by the first item lasts
      have hfirst : Within sets (sets.add (target i) (gives sets i)) := within_add sets _ _
      have hrest : Within (sets.add (target i) (gives sets i))
          (sweep target gives items (sets.add (target i) (gives sets i))) := within_sweep
      generalize sweep target gives items (sets.add (target i) (gives sets i)) = last at hrest
      by_cases hsame : sets.add (target i) (gives sets i) = sets
      · rw [hsame]
        simp
      · have hlast : last ≠ sets := fun heq => hsame (Within.antisymm (heq ▸ hrest) hfirst)
        simp [hlast, length_get_add_eq_iff, hsame]
  exact hpass false

/-- What a single item keeps, any number of sweeps keep. -/
theorem iterate_sweep_induction {motive : SymbolSets → Prop}
    (step : ∀ sets, ∀ i ∈ items, motive sets → motive (sets.add (target i) (gives sets i)))
    (h : motive sets) (n : Nat) : motive ((sweep target gives items)^[n] sets) :=
  Function.Iterate.rec motive h (fun _ hsets => sweep_induction step hsets) n

/-! ### One symbol -/

/-- Both families hold `t` in the same places. -/
structure SameAt (t : Symbol) (a b : SymbolSets) : Prop where
  length_eq : a.length = b.length
  mem_iff : ∀ x, t ∈ a.get x ↔ t ∈ b.get x

namespace SameAt

variable {a b c : SymbolSets} {t : Symbol}

theorem refl (t : Symbol) (a : SymbolSets) : SameAt t a a := ⟨rfl, fun _ => Iff.rfl⟩

theorem symm (h : SameAt t a b) : SameAt t b a := ⟨h.length_eq.symm, fun x => (h.mem_iff x).symm⟩

theorem trans (h : SameAt t a b) (k : SameAt t b c) : SameAt t a c :=
  ⟨h.length_eq.trans k.length_eq, fun x => (h.mem_iff x).trans (k.mem_iff x)⟩

/-- A family between two that agree on `t` agrees with them. -/
theorem of_within (h : SameAt t a c) (hab : Within a b) (hbc : Within b c) : SameAt t a b :=
  ⟨hab.length_eq, fun x => ⟨fun ht => hab.mem ht, fun ht => (h.mem_iff x).2 (hbc.mem ht)⟩⟩

end SameAt

/-- A sweep that changes nothing for any symbol changes nothing. -/
theorem sweep_eq_of_sameAt (h : ∀ t, SameAt t sets (sweep target gives items sets)) :
    sweep target gives items sets = sets :=
  Within.antisymm ⟨(h 0).length_eq.symm, fun ht => ((h _).mem_iff _).2 ht⟩ within_sweep

/-! ### Counting the places of a symbol -/

variable {targets : Finset Symbol} {t : Symbol}

/-- The targets that could still get `t`. -/
def lacking (targets : Finset Symbol) (t : Symbol) (sets : SymbolSets) : Finset Symbol :=
  targets.filter fun x => t ∉ sets.get x

theorem mem_lacking {x : Symbol} : x ∈ lacking targets t sets ↔ x ∈ targets ∧ t ∉ sets.get x :=
  Finset.mem_filter

theorem card_lacking_le : (lacking targets t sets).card ≤ targets.card :=
  Finset.card_filter_le _ _

/-- A sweep in which some set gets `t` leaves fewer targets without it. -/
theorem card_lacking_lt (htargets : ∀ i ∈ items, target i ∈ targets)
    (hne : ¬SameAt t sets (sweep target gives items sets)) :
    (lacking targets t (sweep target gives items sets)).card < (lacking targets t sets).card := by
  have hsweep : Within sets (sweep target gives items sets) := within_sweep
  -- only targets get new members
  have hother : ∀ x ∉ targets, t ∈ (sweep target gives items sets).get x → t ∈ sets.get x := by
    intro x hx
    refine sweep_induction (motive := fun a => t ∈ a.get x → t ∈ sets.get x) ?_ id
    intro a i hi ha ht
    rcases mem_get_add.1 ht with ht | ⟨rfl, -, -⟩
    · exact ha ht
    · exact absurd (htargets i hi) hx
  apply Finset.card_lt_card
  rw [Finset.ssubset_def]
  constructor
  · intro x hx
    obtain ⟨htarget, hnot⟩ := mem_lacking.1 hx
    exact mem_lacking.2 ⟨htarget, fun ht => hnot (hsweep.mem ht)⟩
  · -- if all of them went on lacking `t`, no set would have got it
    intro hsub
    apply hne
    refine ⟨hsweep.length_eq, fun x => ⟨fun ht => hsweep.mem ht, fun ht => ?_⟩⟩
    by_cases htarget : x ∈ targets
    · by_contra hnot
      exact (mem_lacking.1 (hsub (mem_lacking.2 ⟨htarget, hnot⟩))).2 ht
    · exact hother x htarget ht

/-! ### A symbol that spreads by itself -/

/-- The families of this kind are kept by every item, and among them the places
    that hold `t` decide which items give `t`. -/
structure Autonomous (target : ι → Symbol) (gives : SymbolSets → ι → SymbolSet) (items : List ι)
    (inv : SymbolSets → Prop) (t : Symbol) : Prop where
  keep : ∀ sets, inv sets → ∀ i ∈ items, inv (sets.add (target i) (gives sets i))
  mem : ∀ a b, inv a → inv b → SameAt t a b → ∀ i ∈ items, t ∈ gives a i → t ∈ gives b i

namespace Autonomous

variable {inv : SymbolSets → Prop} {n : Nat}

/-- If no set gets `t` in a sweep, no item has `t` to give. -/
theorem mem_of_sameAt_sweep (h : Autonomous target gives items inv t) (hinv : inv sets)
    (hsame : SameAt t sets (sweep target gives items sets)) {i : ι} (hi : i ∈ items)
    (hlt : target i < sets.length) (ht : t ∈ gives sets i) : t ∈ sets.get (target i) := by
  obtain ⟨before, after, hitems⟩ := List.append_of_mem hi
  -- the family that the item finds, and what it makes of it
  have hsplit : sweep target gives items sets = sweep target gives after
      ((sweep target gives before sets).add (target i)
        (gives (sweep target gives before sets) i)) := by
    unfold sweep
    rw [hitems, List.foldl_append, List.foldl_cons]
  have hbefore : inv (sweep target gives before sets) := by
    refine sweep_induction (fun next j hj hnext => h.keep next hnext j ?_) hinv
    rw [hitems]
    exact List.mem_append_left _ hj
  have hfound : Within sets (sweep target gives before sets) := within_sweep
  generalize sweep target gives before sets = found at hsplit hbefore hfound
  have hgiven : Within found (found.add (target i) (gives found i)) := within_add found _ _
  have hrest : Within (found.add (target i) (gives found i)) (sweep target gives items sets) := by
    rw [hsplit]
    exact within_sweep
  -- it finds `t` where it was at first, so it gives `t` now as it would have then
  have hsamefound : SameAt t sets found := hsame.of_within hfound (hgiven.trans hrest)
  have hgives : t ∈ gives found i := h.mem sets found hinv hbefore hsamefound i hi ht
  rw [hsame.mem_iff]
  apply hrest.mem
  exact mem_get_add.2 (.inr ⟨rfl, hsamefound.length_eq ▸ hlt, hgives⟩)

/-- If no set gets `t` in a sweep, then no item gives `t` to a set as long as `t`
    is held in the same places. -/
theorem sameAt_add (h : Autonomous target gives items inv t) (hinv : inv sets)
    (hsame : SameAt t sets (sweep target gives items sets)) {a : SymbolSets} (ha : inv a)
    (hsamea : SameAt t sets a) {i : ι} (hi : i ∈ items) :
    SameAt t sets (a.add (target i) (gives a i)) := by
  refine ⟨hsamea.length_eq.trans (length_add a _ _).symm, ?_⟩
  intro x
  rw [mem_get_add, hsamea.mem_iff]
  constructor
  · exact fun ht => .inl ht
  · intro ht
    rcases ht with ht | ⟨rfl, hlt, ht⟩
    · exact ht
    · have hgives : t ∈ gives sets i := h.mem a sets ha hinv hsamea.symm i hi ht
      rw [← hsamea.length_eq] at hlt
      exact (hsamea.mem_iff _).1 (h.mem_of_sameAt_sweep hinv hsame hi hlt hgives)

/-- After a sweep in which no set gets `t`, none ever does. -/
theorem sameAt_iterate (h : Autonomous target gives items inv t) (hinv : inv sets)
    (hsame : SameAt t sets (sweep target gives items sets)) (n : Nat) :
    SameAt t sets ((sweep target gives items)^[n] sets) := by
  -- item by item, together with the kind of the family
  have hboth : inv ((sweep target gives items)^[n] sets) ∧
      SameAt t sets ((sweep target gives items)^[n] sets) := by
    refine iterate_sweep_induction (motive := fun a => inv a ∧ SameAt t sets a) ?_
      ⟨hinv, .refl t sets⟩ n
    intro a i hi ha
    exact ⟨h.keep a ha.1 i hi, h.sameAt_add hinv hsame ha.1 ha.2 hi⟩
  exact hboth.2

/-- After as many sweeps as there are targets without `t`, no set gets `t`. -/
theorem sameAt_of_card_le (h : Autonomous target gives items inv t) (hinv : inv sets)
    (htargets : ∀ i ∈ items, target i ∈ targets) (hcard : (lacking targets t sets).card ≤ n) :
    SameAt t ((sweep target gives items)^[n] sets)
      (sweep target gives items ((sweep target gives items)^[n] sets)) := by
  induction n generalizing sets with
  | zero =>
    by_contra hne
    have hlt := card_lacking_lt htargets hne
    rw [Function.iterate_zero_apply] at hlt
    omega
  | succ n ih =>
    by_cases hsame : SameAt t sets (sweep target gives items sets)
    · -- nothing has changed for `t` since the first sweep
      have hnow := h.sameAt_iterate hinv hsame (n + 1)
      have hnext := h.sameAt_iterate hinv hsame (n + 1 + 1)
      rw [Function.iterate_succ_apply'] at hnext
      exact hnow.symm.trans hnext
    · have hkept : inv (sweep target gives items sets) :=
        sweep_induction (fun a i hi ha => h.keep a ha i hi) hinv
      have hlt := card_lacking_lt htargets hsame
      rw [Function.iterate_succ_apply]
      exact ih hkept (by omega)

end Autonomous

variable {inv : SymbolSets → Prop} {n : Nat}

/-- If every symbol spreads by itself, a sweep changes nothing after as many
    sweeps as there are targets. -/
theorem sweep_iterate_eq (h : ∀ t, Autonomous target gives items inv t) (hinv : inv sets)
    (htargets : ∀ i ∈ items, target i ∈ targets) (hcard : targets.card ≤ n) :
    sweep target gives items ((sweep target gives items)^[n] sets) =
      (sweep target gives items)^[n] sets :=
  sweep_eq_of_sameAt fun t =>
    (h t).sameAt_of_card_le hinv htargets (Nat.le_trans card_lacking_le hcard)

/-- If `u` spreads by itself, and every symbol does where `u` stays in its places,
    a sweep changes nothing after twice as many sweeps as there are targets. -/
theorem sweep_iterate_eq_of_first {u : Symbol} (hfirst : Autonomous target gives items inv u)
    (hother : ∀ t a b, inv a → inv b → SameAt u a b → SameAt t a b → ∀ i ∈ items,
      t ∈ gives a i → t ∈ gives b i)
    (hinv : inv sets) (htargets : ∀ i ∈ items, target i ∈ targets) (hcard : targets.card ≤ n) :
    sweep target gives items ((sweep target gives items)^[n + n] sets) =
      (sweep target gives items)^[n + n] sets := by
  -- after the first half of the sweeps `u` is where it will be
  have hsettled := hfirst.sameAt_of_card_le hinv htargets (Nat.le_trans card_lacking_le hcard)
  have hkept : inv ((sweep target gives items)^[n] sets) :=
    iterate_sweep_induction (fun a i hi ha => hfirst.keep a ha i hi) hinv n
  rw [Function.iterate_add_apply]
  generalize (sweep target gives items)^[n] sets = half at hsettled hkept
  have hrest : ∀ t, Autonomous target gives items (fun a => inv a ∧ SameAt u half a) t := by
    intro t
    constructor
    · intro a ha i hi
      exact ⟨hfirst.keep a ha.1 i hi, hfirst.sameAt_add hkept hsettled ha.1 ha.2 hi⟩
    · intro a b ha hb hsame i hi ht
      exact hother t a b ha.1 hb.1 (ha.2.symm.trans hb.2) hsame i hi ht
  exact sweep_iterate_eq hrest ⟨hkept, .refl u half⟩ htargets hcard

end SymbolSets

end Predictive
