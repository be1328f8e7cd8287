import Predictive.Proofs.LL1
import Predictive.Proofs.Machine.Lookahead

/-! # Errors at the first offending token

    Tokens are viable if some word of the language, with `$` behind it, begins
    with them (`Grammar.Viable`). A parse that is rejected has read viable
    tokens, and with the token that the rejection names they are not viable any
    more.

    * The tokens read are viable: what is still on the stack derives a word, if
      every non-terminal does (`Machine.Reached.viable`). The table may have
      conflicts here.
    * Without conflicts a word that begins with the tokens read and the next one
      is accepted. Up to the rejection the run of this word is the same, since
      no more than these tokens have been looked at, so it is rejected as well
      (`Machine.not_viable_of_rejected`).

    Main result: `Analysis.rejected_at_first_offence`.
-/

namespace Predictive

/-- The token that a rejection names. -/
def Rejection.token? : Rejection → Option String
  | noRule _ token => some token
  | mismatch _ token => some token
  | unexpected _ => none

namespace Grammar

/-- A word of the language of a start symbol. -/
structure Generates (g : Grammar) (start : Symbol) (word : List Symbol) : Prop where
  terminals : ∀ x ∈ word, x ∈ g.terminals
  derives : g.Derives [start] word

/-- The tokens begin some word of the language with `$` behind it. -/
def Viable (g : Grammar) (start : Symbol) (tokens : List String) : Prop :=
  ∃ word, g.Generates start word ∧ tokens <+: g.names word ++ [Symbol.endMarkName]

end Grammar

namespace Machine

variable {m : Machine} {start : Symbol} {is : List Nat} {c : Configuration}
variable {read pending : List Symbol} {steps : List Step} {reason : Rejection}
variable {words : List String}

/-- With a symbol other than `ε` on top of the stack a rejection names the
    current token. -/
theorem token?_of_rejected {top : Symbol} {below : List Symbol} {token : String}
    (hstop : m.next c = .error (.rejected reason)) (hstack : c.stack = top :: below)
    (htoken : m.tokens[c.position]? = some token) (hkind : m.grammar.kind top ≠ .epsilon) :
    reason.token? = some token := by
  cases refusal_of_rejected hstop with
  | noRule _ current | mismatch _ current => exact current.symm.trans htoken
  | epsilon stack kind =>
    obtain ⟨rfl, -⟩ := List.cons.inj (hstack.symm.trans stack)
    exact absurd kind hkind
  | exhausted missing =>
    rcases missing with hempty | hnone
    · cases hstack.symm.trans hempty
    · cases htoken.symm.trans hnone

namespace Reached

/-- There is always a current token: `$` is the last one and is not read. -/
theorem exists_token (hm : m.Standard) (h : m.Reached start is c read pending)
    (htokens : m.tokens = words ++ [Symbol.endMarkName]) :
    ∃ token, m.tokens[c.position]? = some token := by
  cases htoken : m.tokens[c.position]? with
  | some token => exact ⟨token, rfl⟩
  | none =>
    -- then all tokens are read, and so is `$`
    have hall := h.tokens_eq
    rw [List.take_of_length_le (List.getElem?_eq_none_iff.1 htoken), htokens] at hall
    have hmark : Symbol.endMarkName ∈ m.grammar.names read := by rw [← hall]; simp
    exact absurd hmark (hm.wellFormed.endMarkName_not_mem_names h.terminals)

/-- Only plain symbols are pending, if `$` is in no right side. -/
theorem isPlain (hm : m.Standard) (hstart : m.grammar.start? = some start)
    (hrules : ∀ r ∈ m.grammar.rules, Symbol.endMark ∉ r.right)
    (h : m.Reached start is c read pending) : ∀ x ∈ pending, m.grammar.IsPlain x :=
  fun x hx => Grammar.isPlain_of_derives_start hm.wellFormed hrules hstart h.derives.derives x
    (List.mem_append_right _ hx)

/-- The tokens that are read are viable: the pending symbols derive a word. -/
theorem viable (hm : m.Standard) (hstart : m.grammar.start? = some start)
    (hrules : ∀ r ∈ m.grammar.rules, Symbol.endMark ∉ r.right)
    (hproductive : m.grammar.Productive) (h : m.Reached start is c read pending) :
    m.grammar.Viable start (m.tokens.take c.position) := by
  obtain ⟨rest, hrest, hderives⟩ := hproductive.exists_derives_word (h.isPlain hm hstart hrules)
  refine ⟨read ++ rest, ⟨?_, ?_⟩, ?_⟩
  · intro x hx
    exact (List.mem_append.1 hx).elim (h.terminals x) (hrest x)
  · exact h.derives.derives.trans ((Grammar.Derives.refl read).append hderives)
  · rw [h.tokens_eq, Grammar.names_append, List.append_assoc]
    exact List.prefix_append _ _

/-- A rejection names the current token. -/
theorem token?_eq (hm : m.Standard) (hstart : m.grammar.start? = some start)
    (hrules : ∀ r ∈ m.grammar.rules, Symbol.endMark ∉ r.right)
    (h : m.Reached start is c read pending)
    (htokens : m.tokens = words ++ [Symbol.endMarkName])
    (hstop : m.next c = .error (.rejected reason)) :
    ∃ token, m.tokens[c.position]? = some token ∧ reason.token? = some token := by
  obtain ⟨token, htoken⟩ := h.exists_token hm htokens
  obtain ⟨top, below, hstack⟩ : ∃ top below, c.stack = top :: below :=
    List.exists_cons_of_ne_nil (by rw [h.stack_eq]; simp)
  refine ⟨token, htoken, token?_of_rejected hstop hstack htoken ?_⟩
  have hmem : top ∈ pending ++ [Symbol.endMark] := by
    rw [← h.stack_eq, hstack]
    exact List.mem_cons_self
  -- a plain symbol or `$` is on top
  rcases List.mem_append.1 hmem with hmem | hmem
  · rcases h.isPlain hm hstart hrules top hmem with hterminal | hnon
    · rw [(Grammar.mem_terminals.1 hterminal).2]
      decide
    · rw [Grammar.mem_nonTerminals.1 hnon]
      decide
  · rw [List.mem_singleton.1 hmem, hm.wellFormed.kind_endMark]
    decide

end Reached

/-- Tokens that agree with a prefix of both inputs are the same in both. -/
theorem getElem?_eq_of_prefix {tokens : List String} {n i : Nat}
    (h : m.tokens.take n <+: tokens) (hi : i < n) (hlt : i < m.tokens.length) :
    tokens[i]? = m.tokens[i]? := by
  obtain ⟨rest, rfl⟩ := h
  have hshort : i < (m.tokens.take n).length := by
    rw [List.length_take]
    omega
  rw [List.getElem?_append_left hshort, List.getElem?_take_of_lt hi]

/-- Without conflicts, the tokens up to the one at which the input is rejected
    begin no word of the language. -/
theorem not_viable_of_rejected (hm : m.Standard) (hll1 : m.table.isLL1 = true)
    (hstart : m.grammar.start? = some start) (hruns : m.Runs m.initial steps c)
    (hstop : m.next c = .error (.rejected reason)) (hlt : c.position < m.tokens.length) :
    ¬m.grammar.Viable start (m.tokens.take (c.position + 1)) := by
  rintro ⟨word, hword, hbegin⟩
  -- the machine on this word accepts
  let n := m.onTokens (m.grammar.names word ++ [Symbol.endMarkName])
  have hn : n.Standard := ⟨hm.wellFormed, hm.table_eq⟩
  have hkinds : ∀ x ∈ word, m.grammar.kind x ≠ .nonTerminal :=
    fun x hx => Grammar.kind_ne_nonTerminal_of_mem_terminals (hword.terminals x hx)
  obtain ⟨is, hleftmost⟩ := hword.derives.leftmost_word hm.wellFormed hkinds
  obtain ⟨steps', last, hruns', hstop', -, -⟩ :=
    accepts_of_leftmostDerives (m := n) hn hll1 hstart rfl hword.terminals hleftmost
  -- and it makes the steps of the rejected run, which look at no other tokens
  have hagree : ∀ i, i ≤ c.position →
      (m.grammar.names word ++ [Symbol.endMarkName])[i]? = m.tokens[i]? :=
    fun i hi => getElem?_eq_of_prefix hbegin (by omega) (by omega)
  have hsame : n.Runs n.initial steps c :=
    hruns.onTokens fun s hs => hagree s.position (hruns.position_le s hs)
  have hrejected : n.next c = .error (.rejected reason) := by
    rw [← hstop]
    exact next_onTokens (hagree c.position (Nat.le_refl _))
  obtain ⟨-, hverdict⟩ := hsame.unique hrejected hruns' hstop'
  cases hverdict

end Machine

/-! ### Records -/

namespace Analysis

variable {a : Analysis} {input : String} {limit : Option Nat} {fuel : Nat} {start : Symbol}
variable {t : Trace} {reason : Rejection}

theorem viable_of_rejected (hm : (a.machine input).Standard)
    (hstart : a.grammar.start? = some start) (hll1 : a.table.isLL1 = true)
    (hrules : ∀ r ∈ a.grammar.rules, Symbol.endMark ∉ r.right)
    (hproductive : a.grammar.Productive) (ht : a.parse input limit fuel = some t)
    (hrejected : t.status = .finished (.rejected reason)) :
    t.tokens = tokenize input ∧
      (∃ token, t.tokens[(advances t.steps).length]? = some token ∧
        reason.token? = some token) ∧
      a.grammar.Viable start (t.tokens.take (advances t.steps).length) ∧
      ¬a.grammar.Viable start (t.tokens.take ((advances t.steps).length + 1)) := by
  obtain ⟨htokens, last, hruns, hverdict⟩ := Machine.runs_of_parse ht
  have hstop := hverdict _ hrejected
  obtain ⟨read, pending, hlast⟩ :=
    (Machine.reached_initial (m := a.machine input) hstart).runs hm hstart hruns
  have hposition : last.position = (advances t.steps).length := by
    rw [hruns.position_eq]
    exact Nat.zero_add _
  rw [htokens, ← hposition]
  obtain ⟨token, htoken, hnamed⟩ := hlast.token?_eq hm hstart hrules tokens_machine hstop
  have hlt : last.position < (a.machine input).tokens.length :=
    (List.getElem?_eq_some_iff.1 htoken).1
  exact ⟨rfl, ⟨token, htoken, hnamed⟩, hlast.viable hm hstart hrules hproductive,
    Machine.not_viable_of_rejected hm hll1 hstart hruns hstop hlt⟩

/-- A parse is rejected at the first offending token, if the table has no
    conflicts, `$` is in no right side and every non-terminal derives a word:
    the tokens that were read begin a word of the language with `$` behind it,
    and with the next token, which the rejection names, they begin none. -/
theorem rejected_at_first_offence (text input : String) (limit : Option Nat) (fuel : Nat)
    {start : Symbol} {t : Trace} {reason : Rejection}
    (hstart : (ofText text).grammar.start? = some start)
    (hll1 : (ofText text).table.isLL1 = true)
    (hrules : ∀ r ∈ (ofText text).grammar.rules, Symbol.endMark ∉ r.right)
    (hproductive : (ofText text).grammar.Productive)
    (ht : (ofText text).parse input limit fuel = some t)
    (hrejected : t.status = .finished (.rejected reason)) :
    t.tokens = tokenize input ∧
      (∃ token, t.tokens[(advances t.steps).length]? = some token ∧
        reason.token? = some token) ∧
      (ofText text).grammar.Viable start (t.tokens.take (advances t.steps).length) ∧
      ¬(ofText text).grammar.Viable start (t.tokens.take ((advances t.steps).length + 1)) :=
  viable_of_rejected (standard_ofText text input) hstart hll1 hrules hproductive ht hrejected

/-- In `S -> a S b |` the input `a` is rejected at its end: `a` begins the word
    `a b`, and `a` is no word itself. The symbols are `S` (2), `a` (3) and `b` (4). -/
theorem rejected_at_first_offence_of_end :
    let a := ofText "S -> a S b |"
    let t : Trace :=
      { tokens := ["a", "$"]
        steps := [⟨[2, 1], 0, .expand 0⟩, ⟨[3, 2, 4, 1], 0, .advance 3⟩, ⟨[2, 4, 1], 1, .expand 1⟩]
        status := .finished (.rejected (.mismatch 4 "$")) }
    (a.grammar.start? = some 2 ∧ a.table.isLL1 = true ∧
      (∀ r ∈ a.grammar.rules, Symbol.endMark ∉ r.right) ∧ a.grammar.Productive ∧
      a.parse "a" none 3 = some t) ∧
    a.grammar.Viable 2 ["a"] ∧ ¬a.grammar.Viable 2 ["a", "$"] := by
  intro a t
  have hstart : a.grammar.start? = some 2 := by decide
  have hll1 : a.table.isLL1 = true := by decide
  have hrules : ∀ r ∈ a.grammar.rules, Symbol.endMark ∉ r.right := by decide
  have hproductive : a.grammar.Productive := by
    have hall : a.grammar.nonTerminals = [2] := by decide
    unfold Grammar.Productive
    rw [hall]
    intro y hy
    obtain rfl := List.mem_singleton.1 hy
    exact ⟨[], by simp, .rule (r := ⟨2, []⟩) (by decide)⟩
  have ht : a.parse "a" none 3 = some t := by decide
  obtain ⟨-, -, hviable, hnot⟩ :=
    rejected_at_first_offence "S -> a S b |" "a" none 3 hstart hll1 hrules hproductive ht rfl
  exact ⟨⟨hstart, hll1, hrules, hproductive, ht⟩, hviable, hnot⟩

end Analysis

end Predictive
