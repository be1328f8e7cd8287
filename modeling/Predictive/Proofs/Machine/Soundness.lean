import Predictive.Proofs.Table
import Predictive.Proofs.Grammar.Leftmost
import Predictive.Proofs.Machine.Run

/-! # A parse is a leftmost derivation

    A configuration stands for a form: the tokens that are read, as symbols,
    and the stack without its `$` (`Configuration.form?`). The invariant of a
    parse (`Machine.Reached`) says that this form is reached from the start
    symbol by the leftmost derivation which the expansions so far spell out.
    An advance keeps the form, an expansion replaces its leftmost non-terminal
    (`Reached.step`). Nothing here asks for a table without conflicts.

    Main result: `Analysis.parse_leftmost`.
-/

namespace Predictive

/-! ### The form of a configuration -/

/-- The tokens before the current one, each read as the symbol of that name,
    then the stack without its bottom. -/
def Configuration.form? (g : Grammar) (tokens : List String) (c : Configuration) :
    Option (List Symbol) :=
  ((tokens.take c.position).mapM g.symbol?).map (· ++ c.stack.dropLast)

/-- What a step means for the forms before and after it. -/
def Step.Rewrites (g : Grammar) (tokens : List String) (s : Step) (next : Configuration)
    (form form' : List Symbol) : Prop :=
  match s.action with
  | .advance x => s.stack.head? = some x ∧ tokens[s.position]? = some (g.name x) ∧
      next.position = s.position + 1 ∧ form' = form
  | .expand rule => ∃ r before after, g.rules[rule]? = some r ∧ s.stack.head? = some r.left ∧
      form = before ++ r.left :: after ∧ before.length = s.position ∧
      g.kind r.left = .nonTerminal ∧ (∀ x ∈ before, g.kind x ≠ .nonTerminal) ∧
      next.position = s.position ∧ form' = before ++ r.right ++ after

theorem Grammar.mapM_symbol?_names {g : Grammar} (hg : g.WellFormed) {xs : List Symbol}
    (h : ∀ x ∈ xs, x < g.size) : (g.names xs).mapM g.symbol? = some xs := by
  unfold names
  induction xs with
  | nil => rfl
  | cons x xs ih =>
    have hx := hg.symbol?_name (h x List.mem_cons_self)
    have hxs := ih fun y hy => h y (List.mem_cons_of_mem _ hy)
    rw [List.map_cons, List.mapM_cons, hx, hxs]
    rfl

namespace Machine

/-- The machine of a well-formed grammar with its own table. -/
structure Standard (m : Machine) : Prop where
  wellFormed : m.grammar.WellFormed
  table_eq : m.table =
    m.grammar.table m.grammar.first.1 (m.grammar.follow m.grammar.first.1).1

/-- The expansions `is` have led to `c`: the terminals `read` are matched, and
    the symbols `pending` are still to be seen. -/
structure Reached (m : Machine) (start : Symbol) (is : List Nat) (c : Configuration)
    (read pending : List Symbol) : Prop where
  stack_eq : c.stack = pending ++ [Symbol.endMark]
  position_eq : c.position = read.length
  tokens_eq : m.tokens.take c.position = m.grammar.names read
  terminals : ∀ x ∈ read, x ∈ m.grammar.terminals
  derives : m.grammar.LeftmostDerives is [start] (read ++ pending)

variable {m : Machine} {start : Symbol} {is : List Nat} {c c' : Configuration}
variable {read pending : List Symbol} {action : Action} {steps : List Step}

/-- A rule is only taken for its own left side. -/
theorem Standard.rule_of_ruleFor? (hm : m.Standard) {x : Symbol} {token : String} {i : Nat}
    (h : m.ruleFor? x token = some i) : ∃ r, m.grammar.rules[i]? = some r ∧ r.left = x := by
  unfold ruleFor? at h
  obtain ⟨t, -, hhead⟩ := Option.bind_eq_some_iff.1 h
  have hmem := List.mem_of_head? hhead
  rw [hm.table_eq] at hmem
  obtain ⟨-, -, r, hr, hleft, -⟩ := Grammar.mem_rulesAt.1 hmem
  exact ⟨r, hr, hleft⟩

/-- `$` has no turn: it is either accepted or another token is expected. -/
theorem Turn.ne_endMark (hg : m.grammar.WellFormed) {top : Symbol} {token : String}
    (turn : m.Turn top token action)
    (hmark : ¬(top = Symbol.endMark ∧ token = Symbol.endMarkName)) : top ≠ Symbol.endMark := by
  intro htop
  subst htop
  cases turn with
  | expand kind =>
    rw [hg.kind_endMark] at kind
    cases kind
  | advance _ name =>
    rw [hg.name_endMark] at name
    exact hmark ⟨rfl, name.symm⟩

/-- A symbol on top other than `$` is not the bottom of the stack. -/
theorem eq_cons_of_ne_endMark {top : Symbol} {below xs : List Symbol}
    (h : xs ++ [Symbol.endMark] = top :: below) (hne : top ≠ Symbol.endMark) :
    ∃ rest, xs = top :: rest := by
  cases xs with
  | nil => exact absurd (List.cons.inj h).1.symm hne
  | cons y rest =>
    obtain ⟨rfl, -⟩ := List.cons.inj h
    exact ⟨rest, rfl⟩

theorem reached_initial (hstart : m.grammar.start? = some start) :
    m.Reached start [] m.initial [] [start] where
  stack_eq := by
    unfold initial
    rw [hstart]
    rfl
  position_eq := rfl
  tokens_eq := rfl
  terminals := by simp
  derives := .nil [start]

namespace Reached

/-- Every symbol of a form is a symbol of the grammar. -/
theorem lt_size (hm : m.Standard) (hstart : m.grammar.start? = some start)
    (h : m.Reached start is c read pending) : ∀ x ∈ read ++ pending, x < m.grammar.size := by
  apply h.derives.derives.forall_mem (p := fun x => x < m.grammar.size)
  · intro r hr x hx
    exact hm.wellFormed.lt_size_of_mem_right hr hx
  · intro x hx
    rw [List.mem_singleton.1 hx]
    exact Grammar.lt_size_of_kind_ne (by rw [hm.wellFormed.kind_start hstart]; decide)

theorem form?_eq (hm : m.Standard) (h : m.Reached start is c read pending) :
    c.form? m.grammar m.tokens = some (read ++ pending) := by
  have hlt : ∀ x ∈ read, x < m.grammar.size :=
    fun x hx => (Grammar.mem_terminals.1 (h.terminals x hx)).1
  unfold Configuration.form?
  rw [h.tokens_eq, Grammar.mapM_symbol?_names hm.wellFormed hlt, h.stack_eq,
    List.dropLast_concat, Option.map_some]

theorem kind_of_mem_read (h : m.Reached start is c read pending) :
    ∀ x ∈ read, m.grammar.kind x ≠ .nonTerminal :=
  fun x hx => Grammar.kind_ne_nonTerminal_of_mem_terminals (h.terminals x hx)

/-- Matching a terminal moves it from the pending symbols to those read. -/
theorem advance {x : Symbol} {rest : List Symbol} (h : m.Reached start is c read (x :: rest))
    (hx : x ∈ m.grammar.terminals) (htoken : m.tokens[c.position]? = some (m.grammar.name x)) :
    m.Reached start is (m.apply c (.advance x)) (read ++ [x]) rest where
  stack_eq := by
    show c.stack.tail = _
    rw [h.stack_eq, List.cons_append, List.tail_cons]
  position_eq := by
    show c.position + 1 = _
    rw [h.position_eq, List.length_append, List.length_singleton]
  tokens_eq := by
    show m.tokens.take (c.position + 1) = _
    rw [List.take_add_one, h.tokens_eq, htoken, Grammar.names_append]
    rfl
  terminals := by
    intro y hy
    rcases List.mem_append.1 hy with hy | hy
    · exact h.terminals y hy
    · rw [List.mem_singleton.1 hy]
      exact hx
  derives := by
    rw [List.append_assoc, List.singleton_append]
    exact h.derives

/-- Replacing the first pending symbol replaces the leftmost non-terminal. -/
theorem expand {i : Nat} {r : Rule} {rest : List Symbol}
    (h : m.Reached start is c read (r.left :: rest)) (hr : m.grammar.rules[i]? = some r) :
    m.Reached start (is ++ [i]) (m.apply c (.expand i)) read (r.right ++ rest) where
  stack_eq := by
    show m.rightOf i ++ c.stack.tail = _
    rw [rightOf_eq hr, h.stack_eq, List.cons_append, List.tail_cons, List.append_assoc]
  position_eq := h.position_eq
  tokens_eq := h.tokens_eq
  terminals := h.terminals
  derives := by
    have hreplace := Grammar.LeftmostDerives.single rest h.kind_of_mem_read hr
    rw [List.append_assoc] at hreplace
    exact h.derives.append hreplace

/-- One step: it either matches the first pending symbol, a terminal, or
    replaces it, a non-terminal, by a rule. -/
theorem step (hm : m.Standard) (hstart : m.grammar.start? = some start)
    (h : m.Reached start is c read pending) (hnext : m.next c = .ok action) :
    (∃ x rest, action = .advance x ∧ pending = x :: rest ∧
      m.tokens[c.position]? = some (m.grammar.name x) ∧
      m.Reached start is (m.apply c action) (read ++ [x]) rest) ∨
    (∃ i r rest, action = .expand i ∧ m.grammar.rules[i]? = some r ∧ pending = r.left :: rest ∧
      m.Reached start (is ++ [i]) (m.apply c action) read (r.right ++ rest)) := by
  obtain ⟨top, below, token, hstack, htoken, hmark, turn⟩ := next_eq_ok_iff.1 hnext
  have hne := turn.ne_endMark hm.wellFormed hmark
  obtain ⟨rest, rfl⟩ := eq_cons_of_ne_endMark (h.stack_eq.symm.trans hstack) hne
  cases turn with
  | advance kind name =>
    have hkind : m.grammar.kind top = .terminal := by
      rcases kind with kind | kind
      · exact kind
      · exact absurd (hm.wellFormed.kind_eq_endMarker.1 kind) hne
    have hlt : top < m.grammar.size := h.lt_size hm hstart top (by simp)
    rw [← name] at htoken
    exact .inl ⟨top, rest, rfl, rfl, htoken,
      h.advance (Grammar.mem_terminals.2 ⟨hlt, hkind⟩) htoken⟩
  | expand kind predicted =>
    obtain ⟨r, hr, rfl⟩ := hm.rule_of_ruleFor? predicted
    exact .inr ⟨_, r, rest, rfl, hr, rfl, h.expand hr⟩

/-- A run carries the invariant on: its advances are read, and its expansions
    lengthen the derivation. -/
theorem extend (hm : m.Standard) (hstart : m.grammar.start? = some start)
    (h : m.Reached start is c read pending) (hruns : m.Runs c steps c') :
    ∃ pending', m.Reached start (is ++ expansions steps) c' (read ++ advances steps) pending' := by
  induction hruns generalizing is read pending with
  | nil =>
    refine ⟨pending, ?_⟩
    rw [show expansions [] = [] from rfl, show advances [] = [] from rfl,
      List.append_nil, List.append_nil]
    exact h
  | cons next _ ih =>
    rcases h.step hm hstart next with ⟨x, rest, rfl, -, -, hafter⟩ | ⟨i, r, rest, rfl, -, -, hafter⟩
    · obtain ⟨pending', hlast⟩ := ih hafter
      rw [List.append_assoc] at hlast
      exact ⟨pending', hlast⟩
    · obtain ⟨pending', hlast⟩ := ih hafter
      rw [List.append_assoc] at hlast
      exact ⟨pending', hlast⟩

theorem runs (hm : m.Standard) (hstart : m.grammar.start? = some start)
    (h : m.Reached start is c read pending) (hruns : m.Runs c steps c') :
    ∃ read' pending', m.Reached start (is ++ expansions steps) c' read' pending' := by
  obtain ⟨pending', hlast⟩ := h.extend hm hstart hruns
  exact ⟨_, pending', hlast⟩

/-- A step between two configurations of a parse is a step of the leftmost
    derivation. -/
theorem rewrites (hm : m.Standard) (hstart : m.grammar.start? = some start) {s : Step}
    (h : m.Reached start is s.place read pending) (hnext : m.next s.place = .ok s.action) :
    ∃ form', (m.apply s.place s.action).form? m.grammar m.tokens = some form' ∧
      s.Rewrites m.grammar m.tokens (m.apply s.place s.action) (read ++ pending) form' := by
  have hstack : s.stack = pending ++ [Symbol.endMark] := h.stack_eq
  unfold Step.Rewrites
  rcases h.step hm hstart hnext with ⟨x, rest, hx, rfl, htoken, hafter⟩ |
    ⟨i, r, rest, hi, hr, rfl, hafter⟩
  · -- the symbol goes from the stack to the tokens that are read
    refine ⟨_, hafter.form?_eq hm, ?_⟩
    rw [hx]
    refine ⟨?_, htoken, rfl, ?_⟩
    · rw [hstack]
      rfl
    · rw [List.append_assoc, List.singleton_append]
  · refine ⟨_, hafter.form?_eq hm, ?_⟩
    rw [hi]
    refine ⟨r, read, rest, hr, ?_, rfl, h.position_eq.symm, ?_, h.kind_of_mem_read, rfl, ?_⟩
    · rw [hstack]
      rfl
    · exact hm.wellFormed.kind_left (List.mem_of_getElem? hr)
    · rw [List.append_assoc]

/-- Where the machine accepts, nothing is pending and all words are read. -/
theorem accepted (hm : m.Standard) (hstart : m.grammar.start? = some start)
    (h : m.Reached start is c read pending) (hnext : m.next c = .error .accepted)
    (hrules : ∀ r ∈ m.grammar.rules, Symbol.endMark ∉ r.right) {words : List String}
    (htokens : m.tokens = words ++ [Symbol.endMarkName]) (hwords : Symbol.endMarkName ∉ words) :
    pending = [] ∧ m.grammar.names read = words := by
  obtain ⟨below, hstack, htoken⟩ := next_eq_accepted_iff.1 hnext
  constructor
  · -- `$` is in no form, so the one on top is the one at the bottom
    have hform : ∀ x ∈ read ++ pending, x ≠ Symbol.endMark := by
      apply h.derives.derives.forall_mem (p := fun x => x ≠ Symbol.endMark)
      · intro r hr x hx heq
        exact hrules r hr (heq ▸ hx)
      · intro x hx
        rw [List.mem_singleton.1 hx]
        apply hm.wellFormed.ne_endMark_of_kind_ne
        rw [hm.wellFormed.kind_start hstart]
        decide
    cases pending with
    | nil => rfl
    | cons y rest =>
      rw [h.stack_eq] at hstack
      obtain ⟨rfl, -⟩ := List.cons.inj hstack
      exact absurd rfl (hform Symbol.endMark (by simp))
  · -- the first `$` among the tokens is the last token
    have hposition : c.position = words.length := by
      rw [htokens] at htoken
      exact eq_length_of_endMark htoken hwords
    rw [← h.tokens_eq, htokens, hposition, List.take_left]

end Reached

/-- An accepting run spells out a leftmost derivation of the words. -/
theorem leftmost_of_accepted (hm : m.Standard) (hstart : m.grammar.start? = some start)
    (hrules : ∀ r ∈ m.grammar.rules, Symbol.endMark ∉ r.right) {words : List String}
    (htokens : m.tokens = words ++ [Symbol.endMarkName]) (hwords : Symbol.endMarkName ∉ words)
    (hruns : m.Runs m.initial steps c) (hnext : m.next c = .error .accepted) :
    ∃ w, m.grammar.names w = words ∧ (∀ x ∈ w, x ∈ m.grammar.terminals) ∧
      m.grammar.LeftmostDerives (expansions steps) [start] w := by
  obtain ⟨read, pending, hlast⟩ := (reached_initial hstart).runs hm hstart hruns
  obtain ⟨rfl, hnames⟩ := hlast.accepted hm hstart hnext hrules htokens hwords
  have hderives := hlast.derives
  rw [List.append_nil, List.nil_append] at hderives
  exact ⟨read, hnames, hlast.terminals, hderives⟩

end Machine

/-! ### Records -/

/-- A record that ends in `last`, read as a leftmost derivation from the start
    symbol. -/
structure Trace.Leftmost (g : Grammar) (start : Symbol) (t : Trace) (last : Configuration) :
    Prop where
  /-- `$` lies at the bottom of every stack. -/
  bottom : ∀ c ∈ t.places last, c.stack.getLast? = some Symbol.endMark
  first : ∃ c, (t.places last)[0]? = some c ∧ c.form? g t.tokens = some [start]
  /-- Each step leads from the form of its place to the form of the next. -/
  step : ∀ i s, t.steps[i]? = some s → ∃ next form form', (t.places last)[i + 1]? = some next ∧
    s.place.form? g t.tokens = some form ∧ next.form? g t.tokens = some form' ∧
    s.Rewrites g t.tokens next form form'
  /-- The expansions lead to the form of the end. -/
  derives : ∃ form, last.form? g t.tokens = some form ∧
    g.LeftmostDerives (expansions t.steps) [start] form

/-- A run from the beginning is a leftmost derivation. -/
theorem Machine.leftmost_of_runs {m : Machine} {start : Symbol} {last : Configuration}
    (hm : m.Standard) (hstart : m.grammar.start? = some start) {t : Trace}
    (htokens : t.tokens = m.tokens) (hruns : m.Runs m.initial t.steps last) :
    t.Leftmost m.grammar start last := by
  have hinitial := reached_initial hstart
  obtain ⟨read, pending, hlast⟩ := hinitial.runs hm hstart hruns
  refine ⟨?_, ?_, ?_, ?_⟩
  · -- each place is reached by the steps before it
    intro c hc
    unfold Trace.places at hc
    rcases List.mem_append.1 hc with hc | hc
    · obtain ⟨s, hs, rfl⟩ := List.mem_map.1 hc
      obtain ⟨i, hi⟩ := List.getElem?_of_mem hs
      obtain ⟨hbefore, -, -⟩ := hruns.visits hi
      obtain ⟨read', pending', hplace⟩ := hinitial.runs hm hstart hbefore
      rw [hplace.stack_eq, List.getLast?_concat]
    · rw [List.mem_singleton.1 hc, hlast.stack_eq, List.getLast?_concat]
  · refine ⟨m.initial, hruns.getElem?_zero, ?_⟩
    rw [htokens]
    exact hinitial.form?_eq hm
  · intro i s hs
    obtain ⟨hbefore, hnext, hafter⟩ := hruns.visits hs
    obtain ⟨read', pending', hplace⟩ := hinitial.runs hm hstart hbefore
    obtain ⟨form', hform', hrewrites⟩ := hplace.rewrites hm hstart hnext
    rw [htokens]
    exact ⟨_, _, form', hafter, hplace.form?_eq hm, hform', hrewrites⟩
  · refine ⟨read ++ pending, ?_, hlast.derives⟩
    rw [htokens]
    exact hlast.form?_eq hm

namespace Analysis

variable {a : Analysis} {input : String} {limit : Option Nat} {fuel : Nat} {start : Symbol}
variable {t : Trace}

theorem tokens_machine :
    (a.machine input).tokens = Phrase.names input.toList ++ [Symbol.endMarkName] := rfl

theorem standard_machine (hg : a.grammar.WellFormed) (hfirst : a.first = a.grammar.first.1)
    (hfollow : a.follow = (a.grammar.follow a.grammar.first.1).1)
    (htable : a.table = a.grammar.table a.first a.follow) : (a.machine input).Standard := by
  refine ⟨hg, ?_⟩
  show a.table = _
  rw [htable, hfollow, hfirst]
  rfl

theorem standard_ofText (text input : String) : ((ofText text).machine input).Standard :=
  standard_machine wellFormed_ofText first_ofText follow_ofText table_ofText

theorem leftmost_of_parse (hm : (a.machine input).Standard)
    (hstart : a.grammar.start? = some start) (ht : a.parse input limit fuel = some t) :
    t.tokens = tokenize input ∧
    ∃ last,
      (∀ verdict, t.status = .finished verdict →
        (a.machine input).next last = .error verdict) ∧
      t.Leftmost a.grammar start last := by
  obtain ⟨htokens, last, hruns, hverdict⟩ := Machine.runs_of_parse ht
  exact ⟨htokens, last, hverdict, Machine.leftmost_of_runs hm hstart htokens hruns⟩

/-- An accepted input is derived as a whole. -/
theorem derives_of_accepted (hm : (a.machine input).Standard)
    (hstart : a.grammar.start? = some start) (ht : a.parse input limit fuel = some t)
    (haccepted : t.accepted = true) (hrules : ∀ r ∈ a.grammar.rules, Symbol.endMark ∉ r.right)
    (hwords : Symbol.endMarkName ∉ Phrase.names input.toList) :
    ∃ w, a.grammar.names w = Phrase.names input.toList ∧ (∀ x ∈ w, x ∈ a.grammar.terminals) ∧
      a.grammar.LeftmostDerives (expansions t.steps) [start] w := by
  obtain ⟨-, last, hruns, hverdict⟩ := Machine.runs_of_parse ht
  have hnext := hverdict .accepted (of_decide_eq_true haccepted)
  exact Machine.leftmost_of_accepted hm hstart hrules tokens_machine hwords hruns hnext

/-- Every record of a parse is a leftmost derivation from the start symbol,
    whether the table has conflicts or not and however the parse ends. An
    accepted input is derived as a whole, if `$` is neither in a right side nor
    in the input. -/
theorem parse_leftmost (text input : String) (limit : Option Nat) (fuel : Nat)
    {start : Symbol} {t : Trace} (hstart : (ofText text).grammar.start? = some start)
    (ht : (ofText text).parse input limit fuel = some t) :
    t.tokens = tokenize input ∧
    ∃ last,
      (∀ verdict, t.status = .finished verdict →
        ((ofText text).machine input).next last = .error verdict) ∧
      t.Leftmost (ofText text).grammar start last ∧
      (t.accepted = true → (∀ r ∈ (ofText text).grammar.rules, Symbol.endMark ∉ r.right) →
        Symbol.endMarkName ∉ Phrase.names input.toList →
        ∃ w, (ofText text).grammar.names w = Phrase.names input.toList ∧
          (∀ x ∈ w, x ∈ (ofText text).grammar.terminals) ∧
          (ofText text).grammar.LeftmostDerives (expansions t.steps) [start] w) := by
  have hm := standard_ofText text input
  obtain ⟨htokens, last, hverdict, hleftmost⟩ := leftmost_of_parse hm hstart ht
  exact ⟨htokens, last, hverdict, hleftmost, derives_of_accepted hm hstart ht⟩

/-- In `S -> a | a b` both rules are predicted for `a`; the first is taken. The
    symbols are `S` (2), `a` (3) and `b` (4). -/
theorem parse_leftmost_of_conflict :
    let a := ofText "S -> a | a b"
    let t : Trace :=
      { tokens := ["a", "$"]
        steps := [⟨[2, 1], 0, .expand 0⟩, ⟨[3, 1], 0, .advance 3⟩]
        status := .finished .accepted }
    a.table.isLL1 = false ∧ a.grammar.start? = some 2 ∧ a.parse "a" none 2 = some t ∧
      (∃ last, t.Leftmost a.grammar 2 last) ∧
      ∃ w, a.grammar.names w = ["a"] ∧ a.grammar.LeftmostDerives [0] [2] w := by
  intro a t
  have hconflict : a.table.isLL1 = false := by decide
  have hstart : a.grammar.start? = some 2 := by decide
  have ht : a.parse "a" none 2 = some t := by decide
  have hrules : ∀ r ∈ a.grammar.rules, Symbol.endMark ∉ r.right := by decide
  have hwords : Phrase.names "a".toList = ["a"] := by decide
  obtain ⟨-, last, -, hleftmost, haccepted⟩ :=
    parse_leftmost "S -> a | a b" "a" none 2 hstart ht
  obtain ⟨w, hw, -, hderives⟩ := haccepted rfl hrules (by rw [hwords]; decide)
  rw [hwords] at hw
  exact ⟨hconflict, hstart, ht, ⟨last, hleftmost⟩, w, hw, hderives⟩

end Analysis

end Predictive
