import Predictive.Grammar.Derivation
import Predictive.Proofs.Grammar.Reading

/-! # Grammars that come from a text

    A grammar built by hand may hold anything. One that was read from a text
    obeys `Grammar.WellFormed`:

    * names are distinct, so a symbol is found by its name;
    * `ε` and `$` are the only symbols of their kinds;
    * the left side of a rule is a non-terminal, and a right side holds
      symbols of the grammar other than `ε`.

    Main result: `wellFormed_ofText`. It follows from what the reader promises
    about the names of a production (`Production.WellFormed`) and from the way
    in which names are numbered (`wellFormed_ofProductions`).
-/

namespace Predictive

/-! ### Names -/

/-- A non-empty text without blanks. -/
structure Text.IsWord (cs : List Char) : Prop where
  ne_nil : cs ≠ []
  not_isBlank : ∀ c ∈ cs, Text.isBlank c = false

/-- What a grammar text can name a symbol by: a word other than `ε`. -/
structure IsName (name : String) : Prop where
  isWord : Text.IsWord name.toList
  ne_epsilon : name ≠ Symbol.epsilonName

/-- What the reader promises about a production. The left side is also not
    `$`; a right side may mention `$`. -/
structure Production.WellFormed (p : Production) : Prop where
  left : IsName p.left
  left_ne_endMark : p.left ≠ Symbol.endMarkName
  right : ∀ name ∈ p.right, IsName name

theorem isName_of_mem_names {cs : List Char} {name : String} (h : name ∈ Phrase.names cs) :
    IsName name := by
  unfold Phrase.names at h
  obtain ⟨hmem, hne⟩ := List.mem_filter.1 h
  obtain ⟨w, hw, rfl⟩ := List.mem_map.1 hmem
  refine ⟨⟨?_, ?_⟩, of_decide_eq_true hne⟩
  · rw [String.toList_ofList]
    exact Text.ne_nil_of_mem_words hw
  · intro c hc
    rw [String.toList_ofList] at hc
    exact Text.not_isBlank_of_mem_words hw hc

/-- The end of the input can be named in a right side. -/
theorem isName_endMarkName : IsName Symbol.endMarkName := by
  have hchars : Symbol.endMarkName.toList = ['$'] := rfl
  refine ⟨⟨?_, ?_⟩, by decide⟩
  · rw [hchars]
    exact List.cons_ne_nil _ _
  · intro c hc
    rw [hchars, List.mem_singleton] at hc
    subst hc
    decide

/-- The reader accepts a name other than `$` as a left side. -/
theorem RuleLine.leftSide_eq_ok_iff {cs : List Char} {name : String} :
    RuleLine.leftSide cs = .ok name ↔
      Text.trim cs = name.toList ∧ IsName name ∧ name ≠ Symbol.endMarkName := by
  have hblank : (Text.trim cs).any Text.isBlank = true ↔
      ¬∀ c ∈ Text.trim cs, Text.isBlank c = false := by
    simp
  unfold RuleLine.leftSide
  simp only
  constructor
  · intro h
    split at h
    · cases h
    · next hempty =>
      split at h
      · cases h
      · next hnot =>
        split at h
        · cases h
        · next hreserved =>
          cases h
          obtain ⟨hepsilon, hmark⟩ := not_or.1 hreserved
          refine ⟨String.toList_ofList.symm, ⟨⟨?_, ?_⟩, hepsilon⟩, hmark⟩
          · rw [String.toList_ofList]
            exact fun hnil => hempty (List.isEmpty_iff.2 hnil)
          · rw [String.toList_ofList]
            exact Classical.not_not.1 fun hall => hnot (hblank.2 hall)
  · rintro ⟨htrim, hname, hmark⟩
    have hempty : ¬(Text.trim cs).isEmpty = true := by
      rw [htrim, List.isEmpty_iff]
      exact hname.isWord.ne_nil
    have hnot : ¬(Text.trim cs).any Text.isBlank = true := by
      rw [hblank, htrim]
      exact fun hall => hall hname.isWord.not_isBlank
    have hreserved : ¬(name = Symbol.epsilonName ∨ name = Symbol.endMarkName) :=
      not_or.2 ⟨hname.ne_epsilon, hmark⟩
    rw [if_neg hempty, if_neg hnot, htrim, String.ofList_toList, if_neg hreserved]

/-- A line that is read as a rule gives well-formed productions. -/
theorem RuleLine.wellFormed_of_read {line : List Char} {r : RuleLine}
    (h : RuleLine.read line = .ok r) {p : Production} (hp : p ∈ r.productions) :
    p.WellFormed := by
  obtain ⟨before, after, -, hleft, halternatives⟩ := RuleLine.read_eq_ok_iff.1 h
  obtain ⟨-, hname, hmark⟩ := RuleLine.leftSide_eq_ok_iff.1 hleft
  obtain ⟨names, hnames, rfl⟩ := List.mem_map.1 hp
  rw [halternatives] at hnames
  obtain ⟨piece, -, rfl⟩ := List.mem_map.1 hnames
  exact ⟨hname, hmark, fun name hmem => isName_of_mem_names hmem⟩

theorem Reading.wellFormed_of_mem_productions {text : List Char} {p : Production}
    (h : p ∈ Reading.productions text) : p.WellFormed := by
  obtain ⟨r, hr, hp⟩ := Reading.mem_productions.1 h
  obtain ⟨line, -, hread⟩ := Reading.ok_mem_lines_iff.1 hr
  exact RuleLine.wellFormed_of_read hread hp

/-! ### Well-formed grammars -/

namespace Grammar

/-- What every grammar that was read from a text satisfies. -/
structure WellFormed (g : Grammar) : Prop where
  /-- Names are distinct. -/
  symbol?_name : ∀ {x : Symbol}, x < g.size → g.symbol? (g.name x) = some x
  kind_eq_epsilon : ∀ {x : Symbol}, g.kind x = .epsilon ↔ x = Symbol.epsilon
  kind_eq_endMarker : ∀ {x : Symbol}, g.kind x = .endMarker ↔ x = Symbol.endMark
  name_epsilon : g.name Symbol.epsilon = Symbol.epsilonName
  name_endMark : g.name Symbol.endMark = Symbol.endMarkName
  /-- Every symbol but `ε` has a name that an input can hold. -/
  isName : ∀ {x : Symbol}, x < g.size → x ≠ Symbol.epsilon → IsName (g.name x)
  kind_left : ∀ {r : Rule}, r ∈ g.rules → g.kind r.left = .nonTerminal
  lt_size_of_mem_right : ∀ {r : Rule}, r ∈ g.rules → ∀ {x : Symbol}, x ∈ r.right → x < g.size
  ne_epsilon_of_mem_right :
    ∀ {r : Rule}, r ∈ g.rules → ∀ {x : Symbol}, x ∈ r.right → x ≠ Symbol.epsilon

variable {g : Grammar} {x : Symbol}

/-! ### Symbols by kind and by name -/

/-- A number that is no symbol counts as a terminal. -/
theorem lt_size_of_kind_ne (h : g.kind x ≠ .terminal) : x < g.size := by
  rcases Nat.lt_or_ge x g.size with hlt | hge
  · exact hlt
  · refine absurd ?_ h
    unfold kind
    rw [List.getElem?_eq_none hge]
    rfl

theorem lt_size_of_nonTerminal (h : g.kind x = .nonTerminal) : x < g.size :=
  lt_size_of_kind_ne (by rw [h]; decide)

theorem mem_ofKind {k : Kind} : x ∈ g.ofKind k ↔ x < g.size ∧ g.kind x = k := by
  unfold ofKind
  rw [List.mem_filter, List.mem_range, decide_eq_true_iff]

theorem nodup_ofKind {k : Kind} : (g.ofKind k).Nodup := List.nodup_range.filter _

theorem mem_nonTerminals : x ∈ g.nonTerminals ↔ g.kind x = .nonTerminal := by
  unfold nonTerminals
  rw [mem_ofKind]
  constructor
  · exact fun h => h.2
  · intro h
    exact ⟨lt_size_of_nonTerminal h, h⟩

theorem lt_size_of_mem_nonTerminals (h : x ∈ g.nonTerminals) : x < g.size :=
  lt_size_of_nonTerminal (mem_nonTerminals.1 h)

theorem mem_terminals : x ∈ g.terminals ↔ x < g.size ∧ g.kind x = .terminal := mem_ofKind

theorem kind_ne_nonTerminal_of_mem_terminals (h : x ∈ g.terminals) :
    g.kind x ≠ .nonTerminal := by
  rw [(mem_terminals.1 h).2]
  decide

theorem mem_lookaheads : x ∈ g.lookaheads ↔ x ∈ g.terminals ∨ x = Symbol.endMark := by
  unfold lookaheads
  rw [List.mem_append, List.mem_singleton]

theorem lt_size_of_symbol? {name : String} (h : g.symbol? name = some x) : x < g.size :=
  (List.findIdx?_eq_some_iff_getElem.1 h).1

/-- What is found by a name has this name. -/
theorem name_of_symbol? {name : String} (h : g.symbol? name = some x) : g.name x = name := by
  obtain ⟨hlt, hname, -⟩ := List.findIdx?_eq_some_iff_getElem.1 h
  unfold Grammar.name
  rw [List.getElem?_eq_getElem hlt]
  exact beq_iff_eq.1 hname

theorem names_append (xs ys : List Symbol) : g.names (xs ++ ys) = g.names xs ++ g.names ys :=
  List.map_append

/-- The start symbol is the left side of a rule. -/
theorem exists_rule_of_start? {start : Symbol} (h : g.start? = some start) :
    ∃ r ∈ g.rules, r.left = start := by
  unfold start? at h
  obtain ⟨r, hr, hleft⟩ := Option.map_eq_some_iff.1 h
  exact ⟨r, List.mem_of_head? hr, hleft⟩

namespace WellFormed

variable (hg : g.WellFormed)

include hg

theorem kind_epsilon : g.kind Symbol.epsilon = .epsilon := hg.kind_eq_epsilon.2 rfl

theorem kind_endMark : g.kind Symbol.endMark = .endMarker := hg.kind_eq_endMarker.2 rfl

theorem ne_endMark_of_kind_ne (h : g.kind x ≠ .endMarker) : x ≠ Symbol.endMark :=
  fun heq => h (hg.kind_eq_endMarker.2 heq)

theorem epsilon_lt_size : Symbol.epsilon < g.size :=
  lt_size_of_kind_ne (by rw [hg.kind_epsilon]; decide)

theorem endMark_lt_size : Symbol.endMark < g.size :=
  lt_size_of_kind_ne (by rw [hg.kind_endMark]; decide)

theorem lt_size_of_left {r : Rule} (hr : r ∈ g.rules) : r.left < g.size :=
  lt_size_of_nonTerminal (hg.kind_left hr)

/-- The symbols that a rule shows are symbols of the grammar. -/
theorem lt_size_of_mem_shown {r : Rule} (hr : r ∈ g.rules) : ∀ x ∈ r.shown, x < g.size := by
  intro x hx
  unfold Rule.shown at hx
  split at hx
  · rw [List.mem_singleton.1 hx]
    exact hg.epsilon_lt_size
  · exact hg.lt_size_of_mem_right hr hx

/-- Symbols with the same name are the same. -/
theorem eq_of_name_eq {y : Symbol} (hx : x < g.size) (hy : y < g.size)
    (h : g.name x = g.name y) : x = y := by
  have hsome : some x = some y := by rw [← hg.symbol?_name hx, h, hg.symbol?_name hy]
  exact Option.some.inj hsome

/-- Sequences with the same names are the same. -/
theorem eq_of_names_eq {xs ys : List Symbol} (hx : ∀ x ∈ xs, x < g.size)
    (hy : ∀ y ∈ ys, y < g.size) (h : g.names xs = g.names ys) : xs = ys := by
  unfold names at h
  induction xs generalizing ys with
  | nil =>
    rw [List.map_nil] at h
    exact (List.map_eq_nil_iff.1 h.symm).symm
  | cons x xs ih =>
    cases ys with
    | nil => simp at h
    | cons y ys =>
      rw [List.map_cons, List.map_cons] at h
      obtain ⟨hname, hrest⟩ := List.cons.inj h
      have hxy : x = y := hg.eq_of_name_eq (hx x (by simp)) (hy y (by simp)) hname
      have hxs : xs = ys :=
        ih (fun z hz => hx z (by simp [hz])) (fun z hz => hy z (by simp [hz])) hrest
      rw [hxy, hxs]

theorem kind_start {start : Symbol} (h : g.start? = some start) :
    g.kind start = .nonTerminal := by
  obtain ⟨r, hr, rfl⟩ := exists_rule_of_start? h
  exact hg.kind_left hr

/-- Only `ε`, non-terminals and lookaheads are symbols. -/
theorem mem_lookaheads_of_kind (hlt : x < g.size) (hepsilon : x ≠ Symbol.epsilon)
    (hkind : g.kind x ≠ .nonTerminal) : x ∈ g.lookaheads := by
  rw [mem_lookaheads, mem_terminals]
  cases hk : g.kind x with
  | terminal => exact .inl ⟨hlt, rfl⟩
  | nonTerminal => exact absurd hk hkind
  | epsilon => exact absurd (hg.kind_eq_epsilon.1 hk) hepsilon
  | endMarker => exact .inr (hg.kind_eq_endMarker.1 hk)

theorem kind_ne_nonTerminal_of_mem_lookaheads (h : x ∈ g.lookaheads) :
    g.kind x ≠ .nonTerminal := by
  rcases mem_lookaheads.1 h with h | rfl
  · exact kind_ne_nonTerminal_of_mem_terminals h
  · rw [hg.kind_endMark]
    decide

theorem ne_epsilon_of_mem_lookaheads (h : x ∈ g.lookaheads) : x ≠ Symbol.epsilon := by
  intro heq
  subst heq
  rcases mem_lookaheads.1 h with h | h
  · have hkind := (mem_terminals.1 h).2
    rw [hg.kind_epsilon] at hkind
    cases hkind
  · cases h

theorem nodup_lookaheads : g.lookaheads.Nodup := by
  unfold lookaheads
  rw [List.nodup_append]
  refine ⟨nodup_ofKind, List.pairwise_singleton _ _, ?_⟩
  intro x hx y hy hxy
  rw [hxy, List.mem_singleton.1 hy, mem_terminals, hg.kind_endMark] at hx
  cases hx.2

theorem lt_size_of_mem_lookaheads (h : x ∈ g.lookaheads) : x < g.size := by
  rcases mem_lookaheads.1 h with h | rfl
  · exact (mem_terminals.1 h).1
  · exact hg.endMark_lt_size

end WellFormed

end Grammar

end Predictive
