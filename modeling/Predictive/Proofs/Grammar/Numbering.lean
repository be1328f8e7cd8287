import Predictive.Proofs.Grammar.WellFormed

/-! # How names are numbered

    The names of a list of productions are listed without repetition, `ε` and
    `$` first; a symbol is the place of its name in this list. So a name leads
    to its number and back (`name_ofProductions`, `symbol?_ofProductions`), and
    the kind of a symbol is the kind of its name (`kind_ofProductions`).

    Main results: `wellFormed_ofProductions` and `wellFormed_ofText`.
-/

namespace Predictive

/-- Only the name `ε` is classified as standing for nothing. -/
theorem Kind.classify_eq_epsilon_iff {name : String} :
    Kind.classify name = .epsilon ↔ name = Symbol.epsilonName := by
  unfold Kind.classify
  split
  · next h => simp [h]
  · next h =>
    split
    · simp [h]
    · split <;> simp [h]

/-- Only the name `$` is classified as the end of the input. -/
theorem Kind.classify_eq_endMarker_iff {name : String} :
    Kind.classify name = .endMarker ↔ name = Symbol.endMarkName := by
  unfold Kind.classify
  split
  · next h =>
    subst h
    simp [Symbol.epsilonName, Symbol.endMarkName]
  · split
    · next h => simp [h]
    · next h => split <;> simp [h]

namespace Grammar

/-! ### The list of names -/

/-- Listing names without repetition leaves no repetition. -/
theorem nodup_eraseDups (names : List String) : names.eraseDups.Nodup := by
  cases names with
  | nil => exact List.nodup_nil
  | cons name rest =>
    rw [List.eraseDups_cons, List.nodup_cons]
    refine ⟨?_, nodup_eraseDups (rest.filter fun other => !other == name)⟩
    rw [List.mem_eraseDups, List.mem_filter]
    simp
termination_by names.length
decreasing_by exact Nat.lt_succ_of_le (List.length_filter_le _ _)

variable {ps : List Production} {name : String} {x y : Symbol}

theorem nodup_namesOf : (namesOf ps).Nodup := nodup_eraseDups _

theorem mem_namesOf : name ∈ namesOf ps ↔ name = Symbol.epsilonName ∨ name = Symbol.endMarkName ∨
    ∃ p ∈ ps, name = p.left ∨ name ∈ p.right := by
  unfold namesOf
  rw [List.mem_eraseDups, List.mem_cons, List.mem_cons, List.mem_flatMap]
  simp only [List.mem_cons]

theorem left_mem_namesOf {p : Production} (h : p ∈ ps) : p.left ∈ namesOf ps :=
  mem_namesOf.2 (.inr (.inr ⟨p, h, .inl rfl⟩))

theorem mem_namesOf_of_mem_right {p : Production} (h : p ∈ ps) (hname : name ∈ p.right) :
    name ∈ namesOf ps :=
  mem_namesOf.2 (.inr (.inr ⟨p, h, .inr hname⟩))

/-- `ε` and `$` come first, whatever the productions are. -/
theorem namesOf_eq_cons_cons : ∃ rest,
    namesOf ps = Symbol.epsilonName :: Symbol.endMarkName :: rest := by
  unfold namesOf
  rw [List.eraseDups_cons, List.filter_cons_of_pos (by decide), List.eraseDups_cons]
  exact ⟨_, rfl⟩

theorem getElem?_namesOf_epsilon : (namesOf ps)[Symbol.epsilon]? = some Symbol.epsilonName := by
  obtain ⟨rest, h⟩ := @namesOf_eq_cons_cons ps
  rw [h]
  rfl

theorem getElem?_namesOf_endMark : (namesOf ps)[Symbol.endMark]? = some Symbol.endMarkName := by
  obtain ⟨rest, h⟩ := @namesOf_eq_cons_cons ps
  rw [h]
  rfl

/-- A name stands at one place only. -/
theorem eq_of_getElem?_namesOf (hx : (namesOf ps)[x]? = some name)
    (hy : (namesOf ps)[y]? = some name) : x = y := by
  obtain ⟨hlt, -⟩ := List.getElem?_eq_some_iff.1 hx
  exact (List.getElem?_inj hlt nodup_namesOf).1 (hx.trans hy.symm)

/-! ### The symbols of the grammar -/

theorem size_ofProductions : (ofProductions ps).size = (namesOf ps).length := by
  unfold size ofProductions
  rw [List.length_map]

theorem name_ofProductions (h : (namesOf ps)[x]? = some name) :
    (ofProductions ps).name x = name := by
  unfold Grammar.name ofProductions
  rw [List.getElem?_map, h]
  rfl

theorem kind_ofProductions (h : (namesOf ps)[x]? = some name) :
    (ofProductions ps).kind x = kindOf ps name := by
  unfold Grammar.kind ofProductions
  rw [List.getElem?_map, h]
  rfl

/-- A symbol of the grammar has a name in the list. -/
theorem exists_getElem?_namesOf (h : x < (ofProductions ps).size) :
    ∃ name, (namesOf ps)[x]? = some name := by
  rw [size_ofProductions] at h
  exact ⟨_, List.getElem?_eq_getElem h⟩

theorem getElem?_idxOf_namesOf (h : name ∈ namesOf ps) :
    (namesOf ps)[(namesOf ps).idxOf name]? = some name := by
  have hlt := List.idxOf_lt_length_of_mem h
  rw [List.getElem?_eq_getElem hlt, List.getElem_idxOf hlt]

theorem idxOf_namesOf_lt_size (h : name ∈ namesOf ps) :
    (namesOf ps).idxOf name < (ofProductions ps).size := by
  rw [size_ofProductions]
  exact List.idxOf_lt_length_of_mem h

/-- A number is that of a name just if the name has this number. -/
theorem idxOf_namesOf_eq_iff {other : String} (hname : (namesOf ps)[x]? = some name)
    (hother : other ∈ namesOf ps) : (namesOf ps).idxOf other = x ↔ other = name := by
  have hfound := getElem?_idxOf_namesOf hother
  constructor
  · rintro rfl
    exact Option.some.inj (hfound.symm.trans hname)
  · rintro rfl
    exact eq_of_getElem?_namesOf hfound hname

/-- A name is found at its first place among the listed names. -/
theorem symbol?_map {names : List String} {kindOf : String → Kind} {rules : List Rule} :
    (⟨names.map fun name => ⟨name, kindOf name⟩, rules⟩ : Grammar).symbol? name
      = if name ∈ names then some (names.idxOf name) else none := by
  have hplace : names.findIdx (· == name) = names.idxOf name := rfl
  unfold symbol?
  rw [List.findIdx?_map]
  show names.findIdx? (· == name) = _
  rw [List.findIdx?_eq_guard_findIdx_lt, hplace, Option.guard]
  simp only [decide_eq_true_eq, List.idxOf_lt_length_iff]

theorem symbol?_ofProductions (h : (namesOf ps)[x]? = some name) :
    (ofProductions ps).symbol? name = some x := by
  have hmem : name ∈ namesOf ps := List.mem_of_getElem? h
  unfold ofProductions
  rw [symbol?_map, if_pos hmem, (idxOf_namesOf_eq_iff h hmem).2 rfl]

/-- A rule of the grammar is a production with its names replaced by their
    numbers. -/
theorem exists_production_of_mem_rules {r : Rule} (h : r ∈ (ofProductions ps).rules) :
    ∃ p ∈ ps, r = ⟨(namesOf ps).idxOf p.left, p.right.map (namesOf ps).idxOf⟩ := by
  obtain ⟨p, hp, rfl⟩ := List.mem_map.1 h
  exact ⟨p, hp, rfl⟩

/-! ### Kinds among well-formed productions -/

/-- What some production defines is a non-terminal. -/
theorem kindOf_left {p : Production} (h : p ∈ ps) : kindOf ps p.left = .nonTerminal := by
  unfold kindOf
  rw [if_pos]
  exact List.any_eq_true.2 ⟨p, h, beq_self_eq_true _⟩

theorem kindOf_of_forall_left_ne (h : ∀ p ∈ ps, p.left ≠ name) :
    kindOf ps name = .classify name := by
  unfold kindOf
  rw [if_neg]
  intro hany
  obtain ⟨p, hp, hleft⟩ := List.any_eq_true.1 hany
  exact h p hp (beq_iff_eq.1 hleft)

/-- A non-terminal is what some production defines, or what reads like one. -/
theorem kindOf_eq_nonTerminal_iff : kindOf ps name = .nonTerminal ↔
    (∃ p ∈ ps, p.left = name) ∨ Kind.classify name = .nonTerminal := by
  by_cases hdefined : ∃ p ∈ ps, p.left = name
  · obtain ⟨p, hp, rfl⟩ := hdefined
    simp only [kindOf_left hp, true_iff]
    exact .inl ⟨p, hp, rfl⟩
  · have hleft : ∀ p ∈ ps, p.left ≠ name := fun p hp h => hdefined ⟨p, hp, h⟩
    rw [kindOf_of_forall_left_ne hleft]
    exact (or_iff_right hdefined).symm

theorem kindOf_ne_nonTerminal_imp {k : Kind} (hk : k ≠ .nonTerminal) (h : kindOf ps name = k) :
    Kind.classify name = k := by
  unfold kindOf at h
  split at h
  · exact absurd h.symm hk
  · exact h

/-- A kind that only one name has, which no production defines, is the kind of
    the symbol of this name alone. -/
theorem kind_ofProductions_eq_iff {k : Kind} (hterminal : k ≠ .terminal)
    (hkind : k ≠ .nonTerminal) (hclass : ∀ other, Kind.classify other = k ↔ other = name)
    (hname : (namesOf ps)[y]? = some name) (hleft : ∀ p ∈ ps, p.left ≠ name) :
    (ofProductions ps).kind x = k ↔ x = y := by
  constructor
  · intro h
    have hlt : x < (ofProductions ps).size := lt_size_of_kind_ne (by rw [h]; exact hterminal)
    obtain ⟨other, hother⟩ := exists_getElem?_namesOf hlt
    rw [kind_ofProductions hother] at h
    have hsame : other = name := (hclass other).1 (kindOf_ne_nonTerminal_imp hkind h)
    rw [hsame] at hother
    exact eq_of_getElem?_namesOf hother hname
  · intro h
    rw [h, kind_ofProductions hname, kindOf_of_forall_left_ne hleft]
    exact (hclass name).2 rfl

section WellFormed

variable (hps : ∀ p ∈ ps, p.WellFormed)

include hps

/-- Every listed name but `ε` is a name. -/
theorem isName_of_mem_namesOf (h : name ∈ namesOf ps) (hne : name ≠ Symbol.epsilonName) :
    IsName name := by
  rcases mem_namesOf.1 h with rfl | rfl | ⟨p, hp, rfl | hright⟩
  · exact absurd rfl hne
  · exact isName_endMarkName
  · exact (hps p hp).left
  · exact (hps p hp).right name hright

/-- Well-formed productions make a well-formed grammar. -/
theorem wellFormed_ofProductions : (ofProductions ps).WellFormed where
  symbol?_name := by
    intro x hx
    obtain ⟨name, hname⟩ := exists_getElem?_namesOf hx
    rw [name_ofProductions hname]
    exact symbol?_ofProductions hname
  kind_eq_epsilon := kind_ofProductions_eq_iff (by decide) (by decide)
    (fun _ => Kind.classify_eq_epsilon_iff) getElem?_namesOf_epsilon
    fun p hp => (hps p hp).left.ne_epsilon
  kind_eq_endMarker := kind_ofProductions_eq_iff (by decide) (by decide)
    (fun _ => Kind.classify_eq_endMarker_iff) getElem?_namesOf_endMark
    fun p hp => (hps p hp).left_ne_endMark
  name_epsilon := name_ofProductions getElem?_namesOf_epsilon
  name_endMark := name_ofProductions getElem?_namesOf_endMark
  isName := by
    intro x hx hne
    obtain ⟨name, hname⟩ := exists_getElem?_namesOf hx
    rw [name_ofProductions hname]
    refine isName_of_mem_namesOf hps (List.mem_of_getElem? hname) ?_
    intro hepsilon
    subst hepsilon
    exact hne (eq_of_getElem?_namesOf hname getElem?_namesOf_epsilon)
  kind_left := by
    intro r hr
    obtain ⟨p, hp, rfl⟩ := exists_production_of_mem_rules hr
    rw [kind_ofProductions (getElem?_idxOf_namesOf (left_mem_namesOf hp))]
    exact kindOf_left hp
  lt_size_of_mem_right := by
    intro r hr x hx
    obtain ⟨p, hp, rfl⟩ := exists_production_of_mem_rules hr
    obtain ⟨name, hname, rfl⟩ := List.mem_map.1 hx
    exact idxOf_namesOf_lt_size (mem_namesOf_of_mem_right hp hname)
  ne_epsilon_of_mem_right := by
    intro r hr x hx h
    obtain ⟨p, hp, rfl⟩ := exists_production_of_mem_rules hr
    obtain ⟨name, hname, rfl⟩ := List.mem_map.1 hx
    have hfound := getElem?_idxOf_namesOf (mem_namesOf_of_mem_right hp hname)
    rw [h, getElem?_namesOf_epsilon] at hfound
    exact ((hps p hp).right name hname).ne_epsilon (Option.some.inj hfound).symm

end WellFormed

/-- The grammar of a text is well-formed. -/
theorem wellFormed_ofText (text : String) : (Reading.ofText text).grammar.WellFormed :=
  wellFormed_ofProductions fun _ hp => Reading.wellFormed_of_mem_productions hp

end Grammar

end Predictive
