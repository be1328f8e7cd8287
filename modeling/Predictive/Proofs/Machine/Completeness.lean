import Predictive.Proofs.Phrase
import Predictive.Proofs.Machine.Soundness

/-! # A table without conflicts finds the derivation

    At each place of a leftmost derivation the next rule is predicted for the
    next symbol of the word: the symbol begins the right side, or the right
    side vanishes and the symbol follows the left side
    (`Grammar.mem_lookaheadsOf_of_derives`). If the table has no conflicts, the
    machine takes just this rule, so it repeats the derivation step by step
    (`Machine.runs_of_leftmostDerives`). A word has then one leftmost
    derivation at most, and the machine needs a step for each of its rules and
    for each symbol of the word.

    Main result: `Analysis.parse_complete`.
-/

namespace Predictive

namespace Grammar

variable {g : Grammar} {t : Symbol} {xs rest word : List Symbol}

theorem getElem?_names (xs : List Symbol) (t : Symbol) (rest : List Symbol) :
    (g.names (xs ++ t :: rest))[xs.length]? = some (g.name t) := by
  rw [names_append]
  unfold names
  rw [List.getElem?_append_right (by rw [List.length_map]), List.length_map, Nat.sub_self]
  rfl

theorem names_phrase_of_terminals (hg : g.WellFormed) (hword : ∀ x ∈ word, x ∈ g.terminals) :
    Phrase.names (g.phrase word).toList = g.names word := by
  apply names_phrase hg
  · intro x hx
    exact (mem_terminals.1 (hword x hx)).1
  · intro x hx
    exact hg.ne_epsilon_of_mem_lookaheads (mem_lookaheads.2 (.inl (hword x hx)))

/-- No terminal is called `$`. -/
theorem WellFormed.endMarkName_not_mem_names (hg : g.WellFormed)
    (hword : ∀ x ∈ word, x ∈ g.terminals) : Symbol.endMarkName ∉ g.names word := by
  unfold names
  intro hmem
  obtain ⟨x, hx, hname⟩ := List.mem_map.1 hmem
  obtain ⟨hlt, hkind⟩ := mem_terminals.1 (hword x hx)
  rw [← hg.name_endMark] at hname
  have hne : g.kind x ≠ .endMarker := by rw [hkind]; decide
  exact hg.ne_endMark_of_kind_ne hne (hg.eq_of_name_eq hlt hg.endMark_lt_size hname)

/-- The next rule of a derivation is predicted for the next symbol of its
    word, or for `$` behind the word. -/
theorem mem_lookaheadsOf_of_derives (hg : g.WellFormed) {start : Symbol}
    (hstart : g.start? = some start) {r : Rule} (hr : r ∈ g.rules) {before after : List Symbol}
    (hform : g.Derives [start] (before ++ r.left :: after))
    (hword : g.Derives (r.right ++ after) word) (hlook : ∀ x ∈ word, x ∈ g.lookaheads)
    (ht : word ++ [Symbol.endMark] = t :: rest) :
    t ∈ lookaheadsOf g.first.1 (g.follow g.first.1).1 r := by
  have hfirst := firstClosed_first hg
  obtain ⟨hbegins, hvanishes⟩ := hfirst.derives hword
  apply mem_lookaheadsOf_of_covers hg hr (covers_of_derives_start hg hstart hform)
  cases word with
  | nil =>
    -- the rest of the form vanishes, and `$` is outside
    obtain rfl : Symbol.endMark = t := (List.cons.inj ht).1
    exact .inr ⟨hvanishes rfl, rfl⟩
  | cons y word =>
    obtain rfl : y = t := (List.cons.inj ht).1
    exact .inl (hbegins (hfirst.mem_ofSequence_cons_self hg (hlook y List.mem_cons_self)))

end Grammar

namespace Machine

variable {m : Machine} {start : Symbol} {is : List Nat} {word : List Symbol}

/-- Without conflicts, a rule is taken for each of its lookaheads. -/
theorem Standard.ruleFor?_eq (hm : m.Standard) (hll1 : m.table.isLL1 = true) {i : Nat}
    {r : Rule} {t : Symbol} (hr : m.grammar.rules[i]? = some r) (hlook : t ∈ m.grammar.lookaheads)
    (ht : t ∈ Grammar.lookaheadsOf m.grammar.first.1 (m.grammar.follow m.grammar.first.1).1 r) :
    m.ruleFor? r.left (m.grammar.name t) = some i := by
  have hg := hm.wellFormed
  have hleft := Grammar.mem_nonTerminals.2 (hg.kind_left (List.mem_of_getElem? hr))
  have hcell : i ∈ m.table.rulesAt r.left t := by
    rw [hm.table_eq]
    exact Grammar.mem_rulesAt.2 ⟨hleft, hlook, r, hr, rfl, ht⟩
  unfold ruleFor?
  rw [hg.symbol?_name (hg.lt_size_of_mem_lookaheads hlook), Option.bind_some]
  exact Table.head?_rulesAt hll1 hcell

/-- Without conflicts, the machine expands by a rule on each of its lookaheads. -/
theorem next_eq_expand_of_mem (hm : m.Standard) (hll1 : m.table.isLL1 = true) {i : Nat}
    {r : Rule} {t : Symbol} (hr : m.grammar.rules[i]? = some r) (hlook : t ∈ m.grammar.lookaheads)
    (ht : t ∈ Grammar.lookaheadsOf m.grammar.first.1 (m.grammar.follow m.grammar.first.1).1 r)
    {position : Nat} (htoken : m.tokens[position]? = some (m.grammar.name t))
    (below : List Symbol) : m.next ⟨r.left :: below, position⟩ = .ok (.expand i) := by
  have hkind := hm.wellFormed.kind_left (List.mem_of_getElem? hr)
  have hrule := hm.ruleFor?_eq hll1 hr hlook ht
  refine next_eq_ok_iff.2 ⟨r.left, below, _, rfl, htoken, ?_, .expand hkind hrule⟩
  intro hmark
  have hne : m.grammar.kind r.left ≠ .endMarker := by rw [hkind]; decide
  exact hm.wellFormed.ne_endMark_of_kind_ne hne hmark.1

section Steps

variable {read pending : List Symbol} {x : Symbol}

/-- On a terminal that is the next symbol of the input the machine advances. -/
theorem next_eq_advance (hm : m.Standard)
    (htokens : m.tokens = m.grammar.names (read ++ x :: word))
    (hx : x ∈ m.grammar.terminals) (below : List Symbol) :
    m.next ⟨x :: below, read.length⟩ = .ok (.advance x) := by
  have hkind := (Grammar.mem_terminals.1 hx).2
  have htoken : m.tokens[read.length]? = some (m.grammar.name x) := by
    rw [htokens, Grammar.getElem?_names]
  refine next_eq_ok_iff.2 ⟨x, below, _, rfl, htoken, ?_, .advance (.inl hkind) rfl⟩
  intro hmark
  have hne : m.grammar.kind x ≠ .endMarker := by rw [hkind]; decide
  exact hm.wellFormed.ne_endMark_of_kind_ne hne hmark.1

/-- On a non-terminal the machine takes the rule by which the rest of the input
    is derived. -/
theorem next_eq_expand (hm : m.Standard) (hll1 : m.table.isLL1 = true)
    (hstart : m.grammar.start? = some start)
    (htokens : m.tokens = m.grammar.names (read ++ (word ++ [Symbol.endMark])))
    (hword : ∀ x ∈ word, x ∈ m.grammar.terminals) {i : Nat} {r : Rule}
    (hr : m.grammar.rules[i]? = some r)
    (hform : m.grammar.Derives [start] (read ++ r.left :: pending))
    (hrest : m.grammar.Derives (r.right ++ pending) word) (below : List Symbol) :
    m.next ⟨r.left :: below, read.length⟩ = .ok (.expand i) := by
  -- the current token is the first symbol of the word, or `$` behind it
  obtain ⟨t, after, ht⟩ : ∃ t after, word ++ [Symbol.endMark] = t :: after :=
    List.exists_cons_of_ne_nil (by simp)
  have htoken : m.tokens[read.length]? = some (m.grammar.name t) := by
    rw [htokens, ht, Grammar.getElem?_names]
  have hlook : ∀ y ∈ word ++ [Symbol.endMark], y ∈ m.grammar.lookaheads := by
    intro y hy
    rw [Grammar.mem_lookaheads]
    rcases List.mem_append.1 hy with hy | hy
    · exact .inl (hword y hy)
    · exact .inr (List.mem_singleton.1 hy)
  have hpredicted := Grammar.mem_lookaheadsOf_of_derives hm.wellFormed hstart
    (List.mem_of_getElem? hr) hform hrest (fun y hy => hlook y (List.mem_append_left _ hy)) ht
  exact next_eq_expand_of_mem hm hll1 hr (hlook t (by rw [ht]; simp)) hpredicted htoken below

end Steps

/-- A leftmost derivation of the rest of the input is a run: one step for each
    rule, and one for each symbol. -/
theorem runs_of_leftmostDerives (hm : m.Standard) (hll1 : m.table.isLL1 = true)
    (hstart : m.grammar.start? = some start) {read pending : List Symbol}
    (htokens : m.tokens = m.grammar.names (read ++ (word ++ [Symbol.endMark])))
    (hword : ∀ x ∈ word, x ∈ m.grammar.terminals)
    (hform : m.grammar.Derives [start] (read ++ pending))
    (h : m.grammar.LeftmostDerives is pending word) :
    ∃ steps, m.Runs ⟨pending ++ [Symbol.endMark], read.length⟩ steps
        ⟨[Symbol.endMark], (read ++ word).length⟩ ∧
      steps.length = is.length + word.length ∧ expansions steps = is := by
  -- each step uses up a rule or a symbol of the word
  generalize hn : is.length + word.length = n
  induction n using Nat.strongRecOn generalizing is word read pending with
  | ind n ih =>
    cases pending with
    | nil =>
      -- the whole word is read
      obtain ⟨rfl, rfl⟩ := h.of_nil rfl
      refine ⟨[], ?_, hn, rfl⟩
      rw [List.append_nil]
      exact .nil _
    | cons x pending =>
      by_cases hx : m.grammar.kind x = .nonTerminal
      · -- the derivation replaces the symbol in front, and so does the machine
        have hkinds : ∀ y ∈ word, m.grammar.kind y ≠ .nonTerminal :=
          fun y hy => Grammar.kind_ne_nonTerminal_of_mem_terminals (hword y hy)
        obtain ⟨i, rest, r, rfl, hr, rfl, hrest⟩ := h.first_rule hx hkinds
        have hnext := next_eq_expand hm hll1 hstart htokens hword hr hform hrest.derives
          (pending ++ [Symbol.endMark])
        have hform' : m.grammar.Derives [start] (read ++ (r.right ++ pending)) := by
          rw [← List.append_assoc]
          exact hform.trans (.single (.replace read pending (List.mem_of_getElem? hr)))
        rw [List.length_cons] at hn
        obtain ⟨steps, hruns, hlength, hexpansions⟩ :=
          ih (rest.length + word.length) (by omega) htokens hword hform' hrest rfl
        have hafter : m.Runs (m.apply ⟨r.left :: (pending ++ [Symbol.endMark]), read.length⟩
            (.expand i)) steps ⟨[Symbol.endMark], (read ++ word).length⟩ := by
          rw [apply_expand hr, ← List.append_assoc]
          exact hruns
        refine ⟨_, .cons hnext hafter, ?_, ?_⟩
        · rw [List.length_cons]
          omega
        · rw [← hexpansions]
          rfl
      · -- the symbol in front is the next one of the word
        obtain ⟨word, rfl, hrest⟩ := h.behind hm.wellFormed hx
        have hsplit : ∀ ys : List Symbol, read ++ x :: ys = (read ++ [x]) ++ ys :=
          fun ys => List.append_cons read x ys
        have hnext := next_eq_advance hm htokens (hword x List.mem_cons_self)
          (pending ++ [Symbol.endMark])
        rw [List.length_cons] at hn
        rw [List.cons_append, hsplit] at htokens
        rw [hsplit] at hform
        obtain ⟨steps, hruns, hlength, hexpansions⟩ :=
          ih (is.length + word.length) (by omega) htokens
            (fun y hy => hword y (List.mem_cons_of_mem _ hy)) hform hrest rfl
        have hafter : m.Runs (m.apply ⟨x :: (pending ++ [Symbol.endMark]), read.length⟩
            (.advance x)) steps ⟨[Symbol.endMark], (read ++ x :: word).length⟩ := by
          rw [List.length_append, List.length_singleton] at hruns
          rw [apply_advance, hsplit]
          exact hruns
        refine ⟨_, .cons hnext hafter, ?_, hexpansions⟩
        rw [List.length_cons]
        omega

/-- A leftmost derivation of the whole input is an accepting run. -/
theorem accepts_of_leftmostDerives (hm : m.Standard) (hll1 : m.table.isLL1 = true)
    (hstart : m.grammar.start? = some start)
    (htokens : m.tokens = m.grammar.names word ++ [Symbol.endMarkName])
    (hword : ∀ x ∈ word, x ∈ m.grammar.terminals)
    (h : m.grammar.LeftmostDerives is [start] word) :
    ∃ steps last, m.Runs m.initial steps last ∧ m.next last = .error .accepted ∧
      steps.length = is.length + word.length ∧ expansions steps = is := by
  have hnames : m.tokens = m.grammar.names (word ++ [Symbol.endMark]) := by
    rw [htokens, Grammar.names_append, ← hm.wellFormed.name_endMark]
    rfl
  obtain ⟨steps, hruns, hlength, hexpansions⟩ :=
    @runs_of_leftmostDerives m start is word hm hll1 hstart [] [start] hnames hword (.refl _) h
  have hinitial : m.initial = ⟨[start] ++ [Symbol.endMark], 0⟩ := by
    unfold initial
    rw [hstart]
    rfl
  refine ⟨steps, _, hinitial ▸ hruns, ?_, hlength, hexpansions⟩
  refine next_eq_accepted_iff.2 ⟨[], rfl, ?_⟩
  show m.tokens[word.length]? = _
  rw [hnames, Grammar.getElem?_names, hm.wellFormed.name_endMark]

end Machine

/-! ### Records -/

namespace Analysis

variable {a : Analysis} {start : Symbol} {is : List Nat} {w : List Symbol}

/-- The parse of a word with a leftmost derivation: how it ends, with enough
    steps and with too few. -/
theorem parse_of_leftmostDerives (hm : (a.machine (a.grammar.phrase w)).Standard)
    (hll1 : a.table.isLL1 = true) (hstart : a.grammar.start? = some start)
    (hw : ∀ x ∈ w, x ∈ a.grammar.terminals) (h : a.grammar.LeftmostDerives is [start] w) :
    (∃ t : Trace, t.accepted = true ∧ t.steps.length = is.length + w.length ∧
      expansions t.steps = is ∧
      (∀ fuel, is.length + w.length ≤ fuel →
        a.parse (a.grammar.phrase w) none fuel = some t) ∧
      (∀ limit fuel, is.length + w.length ≤ limit →
        a.parse (a.grammar.phrase w) (some limit) fuel = some t)) ∧
    (∀ limit fuel, limit < is.length + w.length →
      ∃ t, a.parse (a.grammar.phrase w) (some limit) fuel = some t ∧
        t.status = .gaveUp limit) := by
  have hg : a.grammar.WellFormed := hm.wellFormed
  have htokens : (a.machine (a.grammar.phrase w)).tokens
      = a.grammar.names w ++ [Symbol.endMarkName] := by
    rw [tokens_machine, Grammar.names_phrase_of_terminals hg hw]
  obtain ⟨steps, last, hruns, hstop, hlength, hexpansions⟩ :=
    Machine.accepts_of_leftmostDerives hm hll1 hstart htokens hw h
  rw [← hlength]
  let t : Trace :=
    { tokens := (a.machine (a.grammar.phrase w)).tokens
      steps := steps
      status := .finished .accepted }
  refine ⟨⟨t, rfl, rfl, hexpansions, ?_, ?_⟩, ?_⟩
  · intro fuel hle
    exact Machine.parse_none_of_le hruns hstop hle
  · intro limit fuel hle
    exact Machine.parse_some_of_le hruns hstop hle
  · intro limit fuel hlt
    exact ⟨_, Machine.parse_some_of_lt hruns hlt, rfl⟩

/-- A word has one leftmost derivation at most. -/
theorem leftmost_unique (hm : (a.machine (a.grammar.phrase w)).Standard)
    (hll1 : a.table.isLL1 = true) (hstart : a.grammar.start? = some start)
    (hw : ∀ x ∈ w, x ∈ a.grammar.terminals) {is' : List Nat}
    (h : a.grammar.LeftmostDerives is [start] w) (h' : a.grammar.LeftmostDerives is' [start] w) :
    is' = is := by
  obtain ⟨⟨t, -, -, ht, hparse, -⟩, -⟩ := parse_of_leftmostDerives hm hll1 hstart hw h
  obtain ⟨⟨t', -, -, ht', hparse', -⟩, -⟩ := parse_of_leftmostDerives hm hll1 hstart hw h'
  -- with enough fuel for both, the records are the same
  have hsame := hparse (is.length + w.length + (is'.length + w.length)) (by omega)
  rw [hparse' _ (by omega)] at hsame
  rw [← ht, ← ht', Option.some.inj hsame]

/-- A word without a derivation is not accepted. -/
theorem not_accepted_of_not_derives (hm : (a.machine (a.grammar.phrase w)).Standard)
    (hstart : a.grammar.start? = some start)
    (hrules : ∀ r ∈ a.grammar.rules, Symbol.endMark ∉ r.right)
    (hw : ∀ x ∈ w, x ∈ a.grammar.terminals) (h : ¬a.grammar.Derives [start] w)
    {limit : Option Nat} {fuel : Nat} {t : Trace}
    (ht : a.parse (a.grammar.phrase w) limit fuel = some t) : t.accepted = false := by
  have hg : a.grammar.WellFormed := hm.wellFormed
  have hnames : Phrase.names (a.grammar.phrase w).toList = a.grammar.names w :=
    Grammar.names_phrase_of_terminals hg hw
  cases haccepted : t.accepted with
  | false => rfl
  | true =>
    have hmark : Symbol.endMarkName ∉ a.grammar.names w := hg.endMarkName_not_mem_names hw
    rw [← hnames] at hmark
    obtain ⟨w', hw', hterminals, hderives⟩ :=
      derives_of_accepted hm hstart ht haccepted hrules hmark
    have hsame : w' = w := by
      rw [hnames] at hw'
      apply hg.eq_of_names_eq _ _ hw'
      · intro x hx
        exact (Grammar.mem_terminals.1 (hterminals x hx)).1
      · intro x hx
        exact (Grammar.mem_terminals.1 (hw x hx)).1
    rw [hsame] at hderives
    exact absurd hderives.derives h

/-- A grammar text without conflicts and without `$` in its right sides decides
    words completely. A word with a leftmost derivation is accepted, with a
    step for each rule of the derivation and each symbol of the word, under
    every limit that allows so many steps and without a limit; a smaller limit
    is reported as such. The expansions are the derivation, which is the only
    one. A word without a derivation is never accepted. -/
theorem parse_complete (text : String) {start : Symbol} {w : List Symbol}
    (hstart : (ofText text).grammar.start? = some start)
    (hll1 : (ofText text).table.isLL1 = true)
    (hrules : ∀ r ∈ (ofText text).grammar.rules, Symbol.endMark ∉ r.right)
    (hw : ∀ x ∈ w, x ∈ (ofText text).grammar.terminals) :
    (∀ is, (ofText text).grammar.LeftmostDerives is [start] w →
      (∃ t : Trace, t.accepted = true ∧ t.steps.length = is.length + w.length ∧
        expansions t.steps = is ∧
        (∀ fuel, is.length + w.length ≤ fuel →
          (ofText text).parse ((ofText text).grammar.phrase w) none fuel = some t) ∧
        (∀ limit fuel, is.length + w.length ≤ limit →
          (ofText text).parse ((ofText text).grammar.phrase w) (some limit) fuel = some t)) ∧
      (∀ limit fuel, limit < is.length + w.length →
        ∃ t, (ofText text).parse ((ofText text).grammar.phrase w) (some limit) fuel = some t ∧
          t.status = .gaveUp limit) ∧
      (∀ is', (ofText text).grammar.LeftmostDerives is' [start] w → is' = is)) ∧
    (¬(ofText text).grammar.Derives [start] w → ∀ limit fuel t,
      (ofText text).parse ((ofText text).grammar.phrase w) limit fuel = some t →
      t.accepted = false) := by
  have hm := standard_ofText text ((ofText text).grammar.phrase w)
  constructor
  · intro is h
    obtain ⟨hrecord, hlimit⟩ := parse_of_leftmostDerives hm hll1 hstart hw h
    refine ⟨hrecord, hlimit, ?_⟩
    intro is' h'
    exact leftmost_unique hm hll1 hstart hw h h'
  · intro h limit fuel t ht
    exact not_accepted_of_not_derives hm hstart hrules hw h ht

/-- In `S -> a S b |` the symbols are `S` (2), `a` (3) and `b` (4). The word `a b`
    takes four steps, and `b` is not derived. -/
theorem parse_complete_of_nested :
    let a := ofText "S -> a S b |"
    (a.grammar.start? = some 2 ∧ a.table.isLL1 = true ∧
      ∀ r ∈ a.grammar.rules, Symbol.endMark ∉ r.right) ∧
    ((∀ x ∈ [3, 4], x ∈ a.grammar.terminals) ∧ a.grammar.LeftmostDerives [0, 1] [2] [3, 4] ∧
      (∃ t, t.accepted = true ∧ t.steps.length = 4 ∧ expansions t.steps = [0, 1] ∧
        a.parse (a.grammar.phrase [3, 4]) none 4 = some t) ∧
      ∃ t, a.parse (a.grammar.phrase [3, 4]) (some 3) 0 = some t ∧ t.status = .gaveUp 3) ∧
    ((∀ x ∈ [4], x ∈ a.grammar.terminals) ∧ ¬a.grammar.Derives [2] [4] ∧
      ∀ limit fuel t, a.parse (a.grammar.phrase [4]) limit fuel = some t →
        t.accepted = false) := by
  intro a
  have hstart : a.grammar.start? = some 2 := by decide
  have hll1 : a.table.isLL1 = true := by decide
  have hrules : ∀ r ∈ a.grammar.rules, Symbol.endMark ∉ r.right := by decide
  have hab : ∀ x ∈ [3, 4], x ∈ a.grammar.terminals := by decide
  have hb : ∀ x ∈ [4], x ∈ a.grammar.terminals := by decide
  have hderives : a.grammar.LeftmostDerives [0, 1] [2] [3, 4] := by
    have hnest : a.grammar.rules[0]? = some ⟨2, [3, 2, 4]⟩ := by decide
    have hend : a.grammar.rules[1]? = some ⟨2, []⟩ := by decide
    have hfront : ∀ x ∈ [3], a.grammar.kind x ≠ .nonTerminal := by decide
    have inner : a.grammar.LeftmostDerives [1] [3, 2, 4] [3, 4] := .single [4] hfront hend
    exact .cons [] [] (by simp) hnest inner
  have hnot : ¬a.grammar.Derives [2] [4] := by
    -- `b` does not begin what `S` derives
    intro h
    have hS : a.grammar.kind 2 = .nonTerminal := by decide
    have hlook : 4 ∈ a.grammar.lookaheads := by decide
    have hmem := (Grammar.mem_first_iff wellFormed_ofText hS).2 (.inl ⟨hlook, [], h⟩)
    exact absurd hmem (by decide)
  obtain ⟨hword, -⟩ := parse_complete "S -> a S b |" hstart hll1 hrules hab
  obtain ⟨⟨t, haccepted, hlength, hexpansions, hfuel, -⟩, hlimit, -⟩ := hword [0, 1] hderives
  obtain ⟨-, hrejected⟩ := parse_complete "S -> a S b |" hstart hll1 hrules hb
  refine ⟨⟨hstart, hll1, hrules⟩, ⟨hab, hderives, ?_, ?_⟩, hb, hnot, hrejected hnot⟩
  · exact ⟨t, haccepted, hlength, hexpansions, hfuel 4 (Nat.le_refl 4)⟩
  · exact hlimit 3 0 (Nat.lt_succ_self 3)

end Analysis

end Predictive
