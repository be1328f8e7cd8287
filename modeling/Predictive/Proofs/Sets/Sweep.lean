import Mathlib.Data.Finset.Prod
import Mathlib.Data.Finset.Card
import Predictive.SymbolSet
import Predictive.Saturation

/-! # Sweeps over families of sets

    FIRST and FOLLOW are computed by the same kind of sweep: a list of items is
    passed through once, and each item gives some members to the set of its
    target, taking into account what the items before it have given
    (`SymbolSets.sweep`). Sweeping goes on until a sweep changes nothing.

    * A sweep only adds members (`within_sweep`).
    * What every single item keeps, the whole computation keeps
      (`saturate_sweep_induction`).
    * In a grammar of `n` symbols `n * n + 1` sweeps are enough: each sweep
      that changes something leaves fewer members missing
      (`card_missing_lt`), and at the end every item has given all that it can
      give (`mem_saturate_sweep`).
-/

namespace Predictive.SymbolSets

/-! ### Families that grow -/

theorem mem_get_add {sets : SymbolSets} {x y t : Symbol} {s : SymbolSet} :
    t ∈ (sets.add x s).get y ↔ t ∈ sets.get y ∨ (y = x ∧ x < sets.length ∧ t ∈ s) := by
  by_cases hx : x < sets.length
  · rw [get_add hx]
    by_cases hy : y = x
    · subst hy
      rw [if_pos rfl, SymbolSet.mem_union]
      simp [hx]
    · rw [if_neg hy]
      simp [hy]
  · -- there is no place for `x`, so nothing is added
    have hsame : sets.add x s = sets := by
      unfold add
      exact List.modify_eq_self (Nat.le_of_not_lt hx)
    rw [hsame]
    simp [hx]

/-- Each set of `a` is a part of the set in the same place of `b`. -/
structure Within (a b : SymbolSets) : Prop where
  length_eq : a.length = b.length
  mem : ∀ {x t : Symbol}, t ∈ a.get x → t ∈ b.get x

theorem Within.refl (a : SymbolSets) : Within a a := ⟨rfl, id⟩

theorem Within.trans {a b c : SymbolSets} (h : Within a b) (k : Within b c) : Within a c :=
  ⟨h.length_eq.trans k.length_eq, fun ht => k.mem (h.mem ht)⟩

theorem get_eq_getElem {sets : SymbolSets} {x : Symbol} (h : x < sets.length) :
    sets.get x = sets[x] := by
  unfold get
  rw [List.getD_eq_getElem?_getD, List.getElem?_eq_getElem h, Option.getD_some]

/-- Without a place there are no members. -/
theorem lt_length_of_mem_get {sets : SymbolSets} {x t : Symbol} (h : t ∈ sets.get x) :
    x < sets.length := by
  by_contra hge
  unfold get at h
  rw [List.getD_eq_getElem?_getD, List.getElem?_eq_none (Nat.le_of_not_lt hge)] at h
  exact SymbolSet.not_mem_empty t h

theorem Within.antisymm {a b : SymbolSets} (h : Within a b) (k : Within b a) : a = b := by
  apply List.ext_getElem h.length_eq
  intro x hx hx'
  rw [← get_eq_getElem hx, ← get_eq_getElem hx']
  exact SymbolSet.ext fun t => ⟨h.mem, k.mem⟩

theorem within_add (sets : SymbolSets) (x : Symbol) (s : SymbolSet) :
    Within sets (sets.add x s) :=
  ⟨(length_add sets x s).symm, fun ht => mem_get_add.2 (.inl ht)⟩

/-! ### One sweep -/

section sweep

variable {ι : Type} (target : ι → Symbol) (gives : SymbolSets → ι → SymbolSet)

/-- Lets each item give to the set of its target, one after the other. -/
def sweep (items : List ι) (sets : SymbolSets) : SymbolSets :=
  items.foldl (fun sets i => sets.add (target i) (gives sets i)) sets

variable {target gives} {items : List ι} {sets : SymbolSets}

/-- What a single item keeps, a sweep keeps. -/
theorem sweep_induction {motive : SymbolSets → Prop}
    (step : ∀ sets, ∀ i ∈ items, motive sets → motive (sets.add (target i) (gives sets i)))
    (h : motive sets) : motive (sweep target gives items sets) := by
  induction items generalizing sets with
  | nil => exact h
  | cons i items ih =>
    have hadd := step sets i (by simp) h
    exact ih (fun sets j hj => step sets j (by simp [hj])) hadd

theorem within_sweep : Within sets (sweep target gives items sets) :=
  sweep_induction (motive := Within sets)
    (fun next _ _ hnext => hnext.trans (within_add next _ _)) (.refl sets)

/-- When a sweep changes nothing, no item has anything left to give. -/
theorem mem_of_sweep_eq (hfix : sweep target gives items sets = sets) {i : ι} (hi : i ∈ items)
    (hlt : target i < sets.length) {t : Symbol} (ht : t ∈ gives sets i) :
    t ∈ sets.get (target i) := by
  induction items with
  | nil => cases hi
  | cons j items ih =>
    -- the first item changes nothing, since later items take nothing away
    have hadd : sets.add (target j) (gives sets j) = sets := by
      refine Within.antisymm ?_ (within_add sets _ _)
      have hrest : Within (sets.add (target j) (gives sets j))
          (sweep target gives items (sets.add (target j) (gives sets j))) := within_sweep
      rw [show sweep target gives items (sets.add (target j) (gives sets j)) = sets from hfix]
        at hrest
      exact hrest
    rcases List.mem_cons.1 hi with rfl | hi
    · rw [← hadd]
      exact mem_get_add.2 (.inr ⟨rfl, hlt, ht⟩)
    · apply ih _ hi
      have hrest : sweep target gives items (sets.add (target j) (gives sets j)) = sets := hfix
      rw [hadd] at hrest
      exact hrest

/-! ### Sweeping to the end -/

/-- What a single item keeps, sweeping to the end keeps. -/
theorem saturate_sweep_induction {motive : SymbolSets → Prop}
    (step : ∀ sets, ∀ i ∈ items, motive sets → motive (sets.add (target i) (gives sets i)))
    {fuel : Nat} (h : motive sets) :
    motive (saturate (sweep target gives items) fuel sets).1 :=
  saturate_induction (fun _ hsets => sweep_induction step hsets) h

theorem within_saturate_sweep {fuel : Nat} :
    Within sets (saturate (sweep target gives items) fuel sets).1 :=
  saturate_sweep_induction (motive := Within sets)
    (fun next _ _ hnext => hnext.trans (within_add next _ _)) (.refl sets)

/-- A family for `n` symbols with members among them. -/
structure Bounded (n : Nat) (sets : SymbolSets) : Prop where
  length_eq : sets.length = n
  lt : ∀ {x t : Symbol}, t ∈ sets.get x → t < n

theorem Bounded.add {n : Nat} {x : Symbol} {s : SymbolSet} (h : Bounded n sets)
    (hs : ∀ t ∈ s, t < n) : Bounded n (sets.add x s) := by
  refine ⟨(length_add sets x s).trans h.length_eq, ?_⟩
  intro y t ht
  rcases mem_get_add.1 ht with ht | ⟨-, -, ht⟩
  · exact h.lt ht
  · exact hs t ht

/-- The members that the sets of `n` symbols could still get. -/
def missing (n : Nat) (sets : SymbolSets) : Finset (Symbol × Symbol) :=
  (Finset.range n ×ˢ Finset.range n).filter fun p => p.2 ∉ sets.get p.1

theorem card_missing_le (n : Nat) (sets : SymbolSets) : (missing n sets).card ≤ n * n := by
  have hle := Finset.card_filter_le (Finset.range n ×ˢ Finset.range n)
    fun p => p.2 ∉ sets.get p.1
  rw [Finset.card_product, Finset.card_range] at hle
  exact hle

/-- A family that grows has fewer members missing. -/
theorem card_missing_lt {n : Nat} {a b : SymbolSets} (h : Within a b) (hb : Bounded n b)
    (hne : b ≠ a) : (missing n b).card < (missing n a).card := by
  apply Finset.card_lt_card
  rw [Finset.ssubset_iff_subset_ne]
  constructor
  · intro p hp
    unfold missing at hp ⊢
    rw [Finset.mem_filter] at hp ⊢
    exact ⟨hp.1, fun ha => hp.2 (h.mem ha)⟩
  · intro heq
    -- otherwise `b` would have no member that `a` lacks
    apply hne
    refine Within.antisymm ⟨h.length_eq.symm, ?_⟩ h
    intro x t ht
    by_contra hnot
    have hx : x < n := hb.length_eq ▸ lt_length_of_mem_get ht
    have hmem : (x, t) ∈ missing n a := by
      unfold missing
      simp [hx, hb.lt ht, hnot]
    rw [← heq] at hmem
    unfold missing at hmem
    exact (Finset.mem_filter.1 hmem).2 ht

variable {n : Nat}

theorem bounded_sweep
    (bound : ∀ sets, ∀ i ∈ items, Bounded n sets → ∀ t ∈ gives sets i, t < n)
    (h : Bounded n sets) : Bounded n (sweep target gives items sets) :=
  sweep_induction (fun sets i hi hsets => hsets.add (bound sets i hi hsets)) h

theorem bounded_saturate_sweep
    (bound : ∀ sets, ∀ i ∈ items, Bounded n sets → ∀ t ∈ gives sets i, t < n)
    (h : Bounded n sets) {fuel : Nat} :
    Bounded n (saturate (sweep target gives items) fuel sets).1 :=
  saturate_sweep_induction (fun sets i hi hsets => hsets.add (bound sets i hi hsets)) h

/-- At the end every item has given all that it can give. -/
theorem mem_saturate_sweep
    (bound : ∀ sets, ∀ i ∈ items, Bounded n sets → ∀ t ∈ gives sets i, t < n)
    (h : Bounded n sets) {i : ι} (hi : i ∈ items) (hlt : target i < n) {t : Symbol}
    (ht : t ∈ gives (saturate (sweep target gives items) (n * n + 1) sets).1 i) :
    t ∈ (saturate (sweep target gives items) (n * n + 1) sets).1.get (target i) := by
  have hfix := @sweep_saturate _ _ (sweep target gives items) (Bounded n)
    (fun sets => (missing n sets).card) (fun _ hsets => bounded_sweep bound hsets)
    (fun _ hsets hne => card_missing_lt within_sweep (bounded_sweep bound hsets) hne)
    _ _ h (Nat.lt_succ_of_le (card_missing_le n sets))
  apply mem_of_sweep_eq hfix hi _ ht
  rw [(bounded_saturate_sweep bound h).length_eq]
  exact hlt

end sweep

end Predictive.SymbolSets
