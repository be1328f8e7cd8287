import Predictive.Symbol

/-! # Sets of symbols

    A set of symbols is its ascending list of members, so two sets with the
    same members are equal (`SymbolSet.ext`) and reading a set out always
    gives the same order.

    `SymbolSets` gives a set to each symbol of a grammar.
-/

namespace Predictive

/-- A finite set of symbols, listed in ascending order. -/
structure SymbolSet where
  toList : List Symbol
  ascending : toList.Pairwise (· < ·)
  deriving DecidableEq

namespace SymbolSet

instance : Membership Symbol SymbolSet := ⟨fun s x => x ∈ s.toList⟩

instance (x : Symbol) (s : SymbolSet) : Decidable (x ∈ s) :=
  inferInstanceAs (Decidable (x ∈ s.toList))

theorem mem_toList {x : Symbol} {s : SymbolSet} : x ∈ s.toList ↔ x ∈ s := Iff.rfl

/-- The set without members. -/
def empty : SymbolSet := ⟨[], .nil⟩

instance : EmptyCollection SymbolSet := ⟨empty⟩

instance : Inhabited SymbolSet := ⟨empty⟩

@[simp] theorem not_mem_empty (x : Symbol) : x ∉ (∅ : SymbolSet) := List.not_mem_nil

/-! ### Adding members -/

/-- An ascending list with `x` at its place. -/
def insertInto (x : Nat) : List Nat → List Nat
  | [] => [x]
  | y :: ys => if x < y then x :: y :: ys else if x = y then y :: ys else y :: insertInto x ys

theorem mem_insertInto {x y : Nat} {ys : List Nat} :
    y ∈ insertInto x ys ↔ y = x ∨ y ∈ ys := by
  induction ys with
  | nil => simp [insertInto]
  | cons z zs ih =>
    simp only [insertInto]
    split
    · simp
    · split
      · rename_i h; subst h; simp
      · simp only [List.mem_cons, ih]
        exact or_left_comm

theorem pairwise_insertInto {x : Nat} {ys : List Nat} (h : ys.Pairwise (· < ·)) :
    (insertInto x ys).Pairwise (· < ·) := by
  induction ys with
  | nil => simp [insertInto]
  | cons y ys ih =>
    obtain ⟨hy, hys⟩ := List.pairwise_cons.1 h
    simp only [insertInto]
    split
    · rename_i hxy
      refine List.pairwise_cons.2 ⟨fun z hz => ?_, h⟩
      rcases List.mem_cons.1 hz with rfl | hz
      · exact hxy
      · exact Nat.lt_trans hxy (hy z hz)
    · split
      · exact h
      · refine List.pairwise_cons.2 ⟨fun z hz => ?_, ih hys⟩
        rcases mem_insertInto.1 hz with rfl | hz
        · omega
        · exact hy z hz

/-- The set with one more member. -/
def insert (x : Symbol) (s : SymbolSet) : SymbolSet :=
  ⟨insertInto x s.toList, pairwise_insertInto s.ascending⟩

@[simp] theorem mem_insert {x y : Symbol} {s : SymbolSet} : y ∈ insert x s ↔ y = x ∨ y ∈ s :=
  mem_insertInto

/-- The set of one symbol. -/
def singleton (x : Symbol) : SymbolSet := insert x ∅

@[simp] theorem mem_singleton {x y : Symbol} : y ∈ singleton x ↔ y = x := by
  simp [singleton]

/-- The members of either set. -/
def union (s t : SymbolSet) : SymbolSet := t.toList.foldr insert s

instance : Union SymbolSet := ⟨union⟩

@[simp] theorem mem_union {x : Symbol} {s t : SymbolSet} : x ∈ s ∪ t ↔ x ∈ s ∨ x ∈ t := by
  have key : ∀ xs : List Symbol, x ∈ xs.foldr insert s ↔ x ∈ s ∨ x ∈ xs := by
    intro xs
    induction xs with
    | nil => simp
    | cons y ys ih =>
      simp only [List.foldr_cons, mem_insert, ih, List.mem_cons]
      exact or_left_comm
  exact key t.toList

/-! ### Removing a member -/

/-- The set without `x`. -/
def erase (s : SymbolSet) (x : Symbol) : SymbolSet :=
  ⟨s.toList.filter (· ≠ x), s.ascending.filter _⟩

@[simp] theorem mem_erase {x y : Symbol} {s : SymbolSet} : y ∈ s.erase x ↔ y ∈ s ∧ y ≠ x := by
  show y ∈ s.toList.filter _ ↔ _
  simp [mem_toList]

/-! ### Equality -/

theorem eq_of_pairwise_of_mem_iff {xs ys : List Nat} (hx : xs.Pairwise (· < ·))
    (hy : ys.Pairwise (· < ·)) (h : ∀ z, z ∈ xs ↔ z ∈ ys) : xs = ys := by
  induction xs generalizing ys with
  | nil =>
    cases ys with
    | nil => rfl
    | cons y ys => exact absurd ((h y).2 (by simp)) (by simp)
  | cons x xs ih =>
    cases ys with
    | nil => exact absurd ((h x).1 (by simp)) (by simp)
    | cons y ys =>
      obtain ⟨hx, hxs⟩ := List.pairwise_cons.1 hx
      obtain ⟨hy, hys⟩ := List.pairwise_cons.1 hy
      have heq : x = y := by
        rcases List.mem_cons.1 ((h x).1 (by simp)) with heq | hxy
        · exact heq
        · rcases List.mem_cons.1 ((h y).2 (by simp)) with heq | hyx
          · exact heq.symm
          · have := hx y hyx
            have := hy x hxy
            omega
      subst heq
      refine congrArg _ (ih hxs hys fun z => ?_)
      constructor
      · intro hz
        rcases List.mem_cons.1 ((h z).1 (List.mem_cons_of_mem _ hz)) with rfl | hz'
        · exact absurd (hx z hz) (Nat.lt_irrefl z)
        · exact hz'
      · intro hz
        rcases List.mem_cons.1 ((h z).2 (List.mem_cons_of_mem _ hz)) with rfl | hz'
        · exact absurd (hy z hz) (Nat.lt_irrefl z)
        · exact hz'

theorem ext {s t : SymbolSet} (h : ∀ x, x ∈ s ↔ x ∈ t) : s = t := by
  obtain ⟨xs, hx⟩ := s
  obtain ⟨ys, hy⟩ := t
  congr 1
  exact eq_of_pairwise_of_mem_iff hx hy h

end SymbolSet

/-! ### A set for each symbol -/

/-- The set of symbol `i` stands at place `i`. -/
abbrev SymbolSets := List SymbolSet

namespace SymbolSets

/-- The set of a symbol; a number without a place has the empty set. -/
def get (sets : SymbolSets) (x : Symbol) : SymbolSet := sets.getD x ∅

/-- More members for the set of one symbol. -/
def add (sets : SymbolSets) (x : Symbol) (s : SymbolSet) : SymbolSets :=
  sets.modify x (· ∪ s)

@[simp] theorem length_add (sets : SymbolSets) (x : Symbol) (s : SymbolSet) :
    (sets.add x s).length = sets.length := by
  simp [add]

theorem get_add {sets : SymbolSets} {x y : Symbol} {s : SymbolSet} (h : x < sets.length) :
    (sets.add x s).get y = if y = x then sets.get x ∪ s else sets.get y := by
  simp only [get, add, List.getD_eq_getElem?_getD, List.getElem?_modify]
  by_cases hy : y = x
  · subst hy
    simp [h]
  · simp [hy, Ne.symm hy]

end SymbolSets

end Predictive
