import Mathlib.Data.List.Perm.Basic
import Mathlib.Data.List.Range
import Predictive.Proofs.Grammar.Register

/-! # What a register promises

    The register of a text is used through numbers: a symbol is looked up at its
    number, a name is looked up for its number, and the start symbol and the two
    lists are gone through instead of all symbols. `Register.Valid` says why
    this is safe:

    * numbers and names determine each other, and `ε` and `$` stand apart
      (`SymbolsValid`);
    * the start symbol and the two lists share out the other symbols
      (`ListsValid`);
    * a rule is about symbols of the register (`RuleItem.Valid`).

    All of it is read off the grammar, since the register says what the grammar
    says (`ofText_eq`).

    Main result: `Register.valid_ofText`.
-/

namespace Predictive

namespace Register

/-- The kind of a symbol. -/
def kind? (reg : Register) (x : Symbol) : Option Kind := reg.symbols[x]?.map SymbolItem.kind

/-! ### Promises -/

/-- What is promised about the symbols. -/
structure SymbolsValid (reg : Register) : Prop where
  /-- A symbol is stored at its number. -/
  number_eq : ∀ {i} {item : SymbolItem}, reg.symbols[i]? = some item → item.number = i
  nodup_names : (reg.symbols.map SymbolItem.name).Nodup
  find?_eq_some_iff : ∀ {name i}, reg.find? name = some i ↔
    ∃ item, reg.symbols[i]? = some item ∧ item.name = name
  epsilon : reg.symbols[Symbol.epsilon]? = some ⟨Symbol.epsilon, Symbol.epsilonName, .epsilon⟩
  endMark : reg.symbols[Symbol.endMark]? = some ⟨Symbol.endMark, Symbol.endMarkName, .endMarker⟩
  eq_epsilon : ∀ item ∈ reg.symbols, item.kind = .epsilon → item.number = Symbol.epsilon
  eq_endMark : ∀ item ∈ reg.symbols, item.kind = .endMarker → item.number = Symbol.endMark
  /-- A non-terminal is what some rule defines, or what reads like one. -/
  nonTerminal_iff : ∀ item ∈ reg.symbols, item.kind = .nonTerminal ↔
    (∃ r ∈ reg.rules, r.left = item.number) ∨ Kind.classify item.name = .nonTerminal
  /-- Nothing but `ε` and `$` is there without a rule that mentions it. -/
  occurs : ∀ item ∈ reg.symbols, 2 ≤ item.number →
    ∃ r ∈ reg.rules, item.number = r.left ∨ item.number ∈ r.right

/-- What is promised about the start symbol and the two lists. -/
structure ListsValid (reg : Register) : Prop where
  start?_isSome_iff : reg.start?.isSome ↔ reg.rules ≠ []
  start?_eq : ∀ {x}, reg.start? = some x →
    x = 2 ∧ reg.rules.head?.map RuleItem.left = some x
  /-- Each symbol from 2 on is at one place. -/
  partition : (reg.start?.toList ++ reg.nonTerminals ++ reg.terminals).Perm
    (List.range' 2 (reg.symbols.length - 2))
  ascending_nonTerminals : reg.nonTerminals.Pairwise (· < ·)
  ascending_terminals : reg.terminals.Pairwise (· < ·)
  kind_start : ∀ {x}, reg.start? = some x → reg.kind? x = some .nonTerminal
  kind_nonTerminals : ∀ x ∈ reg.nonTerminals, reg.kind? x = some .nonTerminal
  kind_terminals : ∀ x ∈ reg.terminals, reg.kind? x = some .terminal

/-- What is promised about a rule. -/
structure RuleItem.Valid (reg : Register) (r : RuleItem) : Prop where
  kind_left : reg.kind? r.left = some .nonTerminal
  right_ne_nil : r.right ≠ []
  lt_of_mem_right : ∀ x ∈ r.right, x < reg.symbols.length
  /-- `ε` stands alone. -/
  right_of_epsilon_mem : Symbol.epsilon ∈ r.right → r.right = [Symbol.epsilon]

/-- What a register promises. -/
structure Valid (reg : Register) : Prop where
  symbols : reg.SymbolsValid
  lists : reg.ListsValid
  rule_number : ∀ {k} {r : RuleItem}, reg.rules[k]? = some r → r.number = k
  rule : ∀ r ∈ reg.rules, r.Valid reg

end Register

namespace Grammar

variable {g : Grammar} {x : Symbol}

/-! ### The register of a grammar -/

theorem getElem?_symbols_register {item : Register.SymbolItem} :
    g.register.symbols[x]? = some item ↔ x < g.size ∧ item = ⟨x, g.name x, g.kind x⟩ := by
  show (g.symbols.mapIdx _)[x]? = _ ↔ x < g.symbols.length ∧ _
  rw [List.getElem?_mapIdx]
  unfold name kind
  by_cases hlt : x < g.symbols.length
  · simp [hlt, eq_comm]
  · simp [hlt]

theorem mem_symbols_register {item : Register.SymbolItem} :
    item ∈ g.register.symbols ↔ ∃ x, x < g.size ∧ item = ⟨x, g.name x, g.kind x⟩ := by
  rw [List.mem_iff_getElem?]
  exact exists_congr fun x => getElem?_symbols_register

theorem length_symbols_register : g.register.symbols.length = g.size := List.length_mapIdx

theorem kind?_register (h : x < g.size) : g.register.kind? x = some (g.kind x) := by
  unfold Register.kind?
  rw [getElem?_symbols_register.2 ⟨h, rfl⟩]
  rfl

theorem kind?_register_of_nonTerminal (h : g.kind x = .nonTerminal) :
    g.register.kind? x = some .nonTerminal := by
  rw [kind?_register (lt_size_of_nonTerminal h), h]

theorem getElem?_rules_register {k : Nat} {item : Register.RuleItem} :
    g.register.rules[k]? = some item ↔ ∃ r, g.rules[k]? = some r ∧ item = ⟨k, r.left, r.shown⟩ := by
  show (g.rules.mapIdx _)[k]? = _ ↔ _
  rw [List.getElem?_mapIdx, Option.map_eq_some_iff]
  exact exists_congr fun r => and_congr_right fun _ => eq_comm

theorem exists_mem_rules_register {r : Rule} (hr : r ∈ g.rules) :
    ∃ item ∈ g.register.rules, item.left = r.left ∧ item.right = r.shown := by
  obtain ⟨k, hk⟩ := List.mem_iff_getElem?.1 hr
  exact ⟨_, List.mem_iff_getElem?.2 ⟨k, getElem?_rules_register.2 ⟨r, hk, rfl⟩⟩, rfl, rfl⟩

/-- What a rule of the register defines, a rule of the grammar defines. -/
theorem exists_left_register_iff :
    (∃ item ∈ g.register.rules, item.left = x) ↔ ∃ r ∈ g.rules, r.left = x := by
  constructor
  · rintro ⟨item, hitem, hleft⟩
    obtain ⟨k, hk⟩ := List.mem_iff_getElem?.1 hitem
    obtain ⟨r, hr, rfl⟩ := getElem?_rules_register.1 hk
    exact ⟨r, List.mem_of_getElem? hr, hleft⟩
  · rintro ⟨r, hr, hleft⟩
    obtain ⟨item, hitem, hsame, -⟩ := exists_mem_rules_register hr
    exact ⟨item, hitem, hsame.trans hleft⟩

/-! ### Lists of symbols -/

theorem pairwise_lt_ofKind (k : Kind) : (g.ofKind k).Pairwise (· < ·) :=
  List.pairwise_lt_range.filter _

theorem mem_otherNonTerminals :
    x ∈ g.otherNonTerminals ↔ g.kind x = .nonTerminal ∧ g.start? ≠ some x := by
  unfold otherNonTerminals
  rw [List.mem_filter, mem_nonTerminals, decide_eq_true_iff]
  exact and_congr_right fun _ => ne_comm

theorem pairwise_lt_otherNonTerminals : g.otherNonTerminals.Pairwise (· < ·) :=
  (pairwise_lt_ofKind _).filter _

namespace WellFormed

variable (hg : g.WellFormed)

include hg

/-- A symbol other than `ε` and `$` is a non-terminal or a terminal. -/
theorem two_le_iff {x : Nat} : 2 ≤ x ↔ g.kind x = .nonTerminal ∨ g.kind x = .terminal := by
  -- the reserved numbers are 0 and 1
  have hsplit : 2 ≤ x ↔ ¬x = 0 ∧ ¬x = 1 := by omega
  have hepsilon : x = 0 ↔ g.kind x = .epsilon := hg.kind_eq_epsilon.symm
  have hmark : x = 1 ↔ g.kind x = .endMarker := hg.kind_eq_endMarker.symm
  rw [hsplit, hepsilon, hmark]
  cases g.kind x <;> simp

/-- The start symbol and the listed non-terminals are all non-terminals. -/
theorem mem_start_append_other :
    x ∈ g.start?.toList ++ g.otherNonTerminals ↔ g.kind x = .nonTerminal := by
  rw [List.mem_append, Option.mem_toList, mem_otherNonTerminals]
  constructor
  · rintro (hstart | ⟨hkind, -⟩)
    · exact hg.kind_start hstart
    · exact hkind
  · intro hkind
    by_cases hstart : g.start? = some x
    · exact .inl hstart
    · exact .inr ⟨hkind, hstart⟩

/-- No symbol is at two places. -/
theorem nodup_shared : (g.start?.toList ++ g.otherNonTerminals ++ g.terminals).Nodup := by
  have hterminals : g.terminals.Nodup := (pairwise_lt_ofKind _).imp Nat.ne_of_lt
  have hothers : g.otherNonTerminals.Nodup := pairwise_lt_otherNonTerminals.imp Nat.ne_of_lt
  have hstart : g.start?.toList.Nodup := by cases g.start? <;> simp
  rw [List.nodup_append, List.nodup_append]
  refine ⟨⟨hstart, hothers, ?_⟩, hterminals, ?_⟩
  · rintro x hx y hy rfl
    exact (mem_otherNonTerminals.1 hy).2 (Option.mem_toList.1 hx)
  · rintro x hx y hy rfl
    exact kind_ne_nonTerminal_of_mem_terminals hy (hg.mem_start_append_other.1 hx)

theorem mem_shared {x : Nat} : x ∈ g.start?.toList ++ g.otherNonTerminals ++ g.terminals ↔
    2 ≤ x ∧ x < g.size := by
  rw [List.mem_append, hg.mem_start_append_other, mem_terminals, hg.two_le_iff]
  constructor
  · rintro (hkind | ⟨hlt, hkind⟩)
    · exact ⟨.inl hkind, lt_size_of_nonTerminal hkind⟩
    · exact ⟨.inr hkind, hlt⟩
  · rintro ⟨hkind | hkind, hlt⟩
    · exact .inl hkind
    · exact .inr ⟨hlt, hkind⟩

theorem shared_perm : (g.start?.toList ++ g.otherNonTerminals ++ g.terminals).Perm
    (List.range' 2 (g.size - 2)) := by
  have hsize : Symbol.endMark < g.size := hg.endMark_lt_size
  unfold Symbol.endMark at hsize
  rw [List.perm_ext_iff_of_nodup hg.nodup_shared List.nodup_range']
  intro (x : Nat)
  rw [hg.mem_shared, List.mem_range'_1]
  omega

end WellFormed

/-! ### The promises are kept -/

theorem listsValid_register (hg : g.WellFormed) (hstart : ∀ {x}, g.start? = some x → x = 2) :
    g.register.ListsValid where
  start?_isSome_iff := by
    show (g.rules.head?.map Rule.left).isSome ↔ g.rules.mapIdx _ ≠ []
    cases g.rules <;> simp
  start?_eq := by
    intro x hx
    refine ⟨hstart hx, ?_⟩
    have hhead : g.register.rules.head?.map Register.RuleItem.left =
        g.rules.head?.map Rule.left := by
      unfold Grammar.register
      cases g.rules <;> simp
    exact hhead.trans hx
  partition := by
    rw [length_symbols_register]
    exact hg.shared_perm
  ascending_nonTerminals := pairwise_lt_otherNonTerminals
  ascending_terminals := pairwise_lt_ofKind _
  kind_start := fun hx => kind?_register_of_nonTerminal (hg.kind_start hx)
  kind_nonTerminals := fun _ hx =>
    kind?_register_of_nonTerminal (mem_otherNonTerminals.1 hx).1
  kind_terminals := by
    intro x hx
    obtain ⟨hlt, hkind⟩ := mem_terminals.1 hx
    rw [kind?_register hlt, hkind]

theorem ruleItemValid_register (hg : g.WellFormed) {item : Register.RuleItem}
    (hitem : item ∈ g.register.rules) : item.Valid g.register := by
  obtain ⟨k, hk⟩ := List.mem_iff_getElem?.1 hitem
  obtain ⟨r, hget, rfl⟩ := getElem?_rules_register.1 hk
  have hr : r ∈ g.rules := List.mem_of_getElem? hget
  -- no right side of the grammar holds `ε`, so `ε` is shown only for an empty one
  have hshown : r.shown = [Symbol.epsilon] ∨ r.shown = r.right ∧ r.right ≠ [] := by
    unfold Rule.shown
    by_cases hempty : r.right = [] <;> simp [hempty]
  refine ⟨?_, ?_, ?_, ?_⟩
  · exact kind?_register_of_nonTerminal (hg.kind_left hr)
  · show r.shown ≠ []
    rcases hshown with h | ⟨h, hne⟩
    · simp [h]
    · rwa [h]
  · show ∀ x ∈ r.shown, x < _
    intro x hx
    rw [length_symbols_register]
    rcases hshown with h | ⟨h, -⟩
    · rw [h, List.mem_singleton] at hx
      rw [hx]
      exact hg.epsilon_lt_size
    · rw [h] at hx
      exact hg.lt_size_of_mem_right hr hx
  · show Symbol.epsilon ∈ r.shown → r.shown = _
    intro hmem
    rcases hshown with h | ⟨h, -⟩
    · exact h
    · rw [h] at hmem
      exact absurd rfl (hg.ne_epsilon_of_mem_right hr hmem)

variable {ps : List Production}

/-- A rule defines a symbol just if a production defines its name. -/
theorem exists_left_ofProductions_iff {name : String} (hname : (namesOf ps)[x]? = some name) :
    (∃ r ∈ (ofProductions ps).rules, r.left = x) ↔ ∃ p ∈ ps, p.left = name := by
  constructor
  · rintro ⟨r, hr, hleft⟩
    obtain ⟨p, hp, rfl⟩ := exists_production_of_mem_rules hr
    exact ⟨p, hp, (idxOf_namesOf_eq_iff hname (left_mem_namesOf hp)).1 hleft⟩
  · rintro ⟨p, hp, hleft⟩
    exact ⟨_, List.mem_map.2 ⟨p, hp, rfl⟩,
      (idxOf_namesOf_eq_iff hname (left_mem_namesOf hp)).2 hleft⟩

/-- Every symbol from 2 on got its number from a production. -/
theorem exists_rule_mentions {x : Nat} (htwo : 2 ≤ x) (hlt : x < (ofProductions ps).size) :
    ∃ r ∈ (ofProductions ps).rules, x = r.left ∨ x ∈ r.right := by
  obtain ⟨name, hname⟩ := exists_getElem?_namesOf hlt
  have hmem : name ∈ namesOf ps := List.mem_of_getElem? hname
  have hplace : (namesOf ps).idxOf name = x := (idxOf_namesOf_eq_iff hname hmem).2 rfl
  -- the names that no production mentions are those of 0 and 1
  rcases mem_namesOf.1 hmem with rfl | rfl | ⟨p, hp, hside⟩
  · have hzero : x = 0 := eq_of_getElem?_namesOf hname getElem?_namesOf_epsilon
    omega
  · have hone : x = 1 := eq_of_getElem?_namesOf hname getElem?_namesOf_endMark
    omega
  · refine ⟨_, List.mem_map.2 ⟨p, hp, rfl⟩, ?_⟩
    rcases hside with rfl | hright
    · exact .inl hplace.symm
    · exact .inr (List.mem_map.2 ⟨name, hright, hplace⟩)

theorem symbolsValid_register (hg : (ofProductions ps).WellFormed) :
    (ofProductions ps).register.SymbolsValid where
  number_eq := by
    intro i item hitem
    obtain ⟨-, rfl⟩ := getElem?_symbols_register.1 hitem
    rfl
  nodup_names := by
    have hnames : (ofProductions ps).register.symbols.map Register.SymbolItem.name
        = namesOf ps := by
      unfold Grammar.register ofProductions
      exact List.ext_getElem (by simp) (by simp)
    rw [hnames]
    exact nodup_namesOf
  find?_eq_some_iff := by
    intro name i
    constructor
    · intro h
      exact ⟨_, getElem?_symbols_register.2 ⟨lt_size_of_symbol? h, rfl⟩, name_of_symbol? h⟩
    · rintro ⟨item, hitem, hname⟩
      obtain ⟨hlt, rfl⟩ := getElem?_symbols_register.1 hitem
      rw [← hname]
      exact hg.symbol?_name hlt
  epsilon := by
    rw [getElem?_symbols_register, hg.name_epsilon, hg.kind_epsilon]
    exact ⟨hg.epsilon_lt_size, rfl⟩
  endMark := by
    rw [getElem?_symbols_register, hg.name_endMark, hg.kind_endMark]
    exact ⟨hg.endMark_lt_size, rfl⟩
  eq_epsilon := by
    intro item hitem hkind
    obtain ⟨x, -, rfl⟩ := mem_symbols_register.1 hitem
    exact hg.kind_eq_epsilon.1 hkind
  eq_endMark := by
    intro item hitem hkind
    obtain ⟨x, -, rfl⟩ := mem_symbols_register.1 hitem
    exact hg.kind_eq_endMarker.1 hkind
  nonTerminal_iff := by
    intro item hitem
    obtain ⟨x, hlt, rfl⟩ := mem_symbols_register.1 hitem
    obtain ⟨name, hname⟩ := exists_getElem?_namesOf hlt
    show (ofProductions ps).kind x = _ ↔ _ ∨ Kind.classify ((ofProductions ps).name x) = _
    rw [kind_ofProductions hname, name_ofProductions hname, kindOf_eq_nonTerminal_iff,
      exists_left_register_iff, exists_left_ofProductions_iff hname]
  occurs := by
    intro item hitem htwo
    obtain ⟨x, hlt, rfl⟩ := mem_symbols_register.1 hitem
    obtain ⟨r, hr, hmentions⟩ := exists_rule_mentions htwo hlt
    obtain ⟨shown, hshown, hleft, hright⟩ := exists_mem_rules_register hr
    refine ⟨shown, hshown, ?_⟩
    rw [hleft, hright]
    refine hmentions.imp_right fun hmem => ?_
    -- a right side that mentions something is shown as it is
    unfold Rule.shown
    rwa [if_neg]
    rw [List.isEmpty_iff]
    exact List.ne_nil_of_mem hmem

theorem eq_two_of_start? (hps : ∀ p ∈ ps, p.WellFormed) (h : (ofProductions ps).start? = some x) :
    x = 2 := by
  cases ps with
  | nil => cases h
  | cons p rest =>
    have hp := hps p List.mem_cons_self
    rw [Register.start?_ofProductions hp.left.ne_epsilon hp.left_ne_endMark] at h
    exact (Option.some.inj h).symm

end Grammar

/-- Every grammar text has a valid register, and it is the register of the
    grammar that is read from the text. -/
theorem Register.valid_ofText (text : String) : (Register.ofText text).Valid ∧
    Register.ofText text = (Reading.ofText text).grammar.register := by
  have heq := Register.ofText_eq text
  have hps : ∀ p ∈ Reading.productions text.toList, p.WellFormed :=
    fun _ hp => Reading.wellFormed_of_mem_productions hp
  have hg := Grammar.wellFormed_ofText text
  refine ⟨?_, heq⟩
  rw [heq]
  refine
    { symbols := Grammar.symbolsValid_register hg
      lists := Grammar.listsValid_register hg fun hx => Grammar.eq_two_of_start? hps hx
      rule_number := ?_
      rule := fun r hr => Grammar.ruleItemValid_register hg hr }
  intro k r hr
  obtain ⟨_, -, rfl⟩ := Grammar.getElem?_rules_register.1 hr
  rfl

end Predictive
