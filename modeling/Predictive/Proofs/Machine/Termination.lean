import Predictive.Proofs.Machine.Completeness
import Predictive.Proofs.Machine.Lookahead

/-! # A table without conflicts ends every parse

    An expansion may make the stack longer, so no count of symbols goes down.
    What goes down is a derivation: without conflicts, the rule that the
    machine takes for the symbol on top and the token `t` is the first rule of
    every leftmost derivation from that symbol to a form that begins with `t`,
    or, if there is none and `t` follows the symbol, to the empty form. So the
    machine follows one such derivation to its end (`Machine.runs_to_front`).

    Then `t` is on top and is read, or the symbol is gone and the stack below
    it is left. Either the rest of the input or, with the same input, the
    stack gets shorter (`Machine.finishes`). The argument is about any stack,
    so nothing is asked about which symbols can be reached or derive a word.

    Main result: `Analysis.parse_finishes`.
-/

namespace Predictive

namespace Grammar

variable {g : Grammar} {x t : Symbol}

/-- A lookahead of a rule begins a form of its left side, or it follows the left
    side, which vanishes. -/
theorem begins_or_vanishes_of_mem_lookaheadsOf (hg : g.WellFormed) {r : Rule} (hr : r ∈ g.rules)
    (ht : t ∈ lookaheadsOf g.first.1 (g.follow g.first.1).1 r) :
    (∃ rest, g.Derives [r.left] (t :: rest)) ∨
      (g.Derives [r.left] [] ∧ t ∈ (g.follow g.first.1).1.get r.left) := by
  have hright := hg.withoutEpsilon_right hr
  rcases mem_lookaheadsOf.1 ht with hbegins | ⟨hnil, hfollow⟩
  · obtain ⟨-, rest, hrest⟩ := (mem_ofSequence_first_iff hg).1 hbegins
    rw [hright] at hrest
    exact .inl ⟨rest, (Derives.rule hr).trans hrest⟩
  · have hvanish := (vanishes_ofSequence_first_iff hg).1 hnil
    rw [hright] at hvanish
    exact .inr ⟨(Derives.rule hr).trans hvanish, hfollow⟩

end Grammar

namespace Machine

variable {m : Machine} {c c' : Configuration} {steps : List Step} {verdict : Verdict}

/-! ### Coming to an end -/

/-- From here the parse comes to its end. -/
def Finishes (m : Machine) (c : Configuration) : Prop :=
  ∃ steps last verdict, m.Runs c steps last ∧ m.next last = .error verdict

theorem Finishes.of_error (h : m.next c = .error verdict) : m.Finishes c :=
  ⟨[], c, verdict, .nil c, h⟩

theorem Finishes.of_runs (h : m.Runs c steps c') (hfinishes : m.Finishes c') : m.Finishes c := by
  obtain ⟨steps', last, verdict, hruns, hstop⟩ := hfinishes
  exact ⟨steps ++ steps', last, verdict, h.append hruns, hstop⟩

theorem Finishes.of_ok {action : Action} (h : m.next c = .ok action)
    (hfinishes : m.Finishes (m.apply c action)) : m.Finishes c :=
  .of_runs (.cons h (.nil _)) hfinishes

/-! ### Following a derivation -/

section Lookahead

variable {t : Symbol} {position : Nat} {is : List Nat} {xs goal : List Symbol}

/-- The machine follows a leftmost derivation on top of its stack until the
    front of the last form is there, if that front is the current token, or if
    nothing is left and the token can come next. -/
theorem runs_to_front (hm : m.Standard) (hll1 : m.table.isLL1 = true)
    (hlook : t ∈ m.grammar.lookaheads) (htoken : m.tokens[position]? = some (m.grammar.name t))
    {outside : Symbol → Prop}
    (hcovers : m.grammar.Covers m.grammar.first.1 (m.grammar.follow m.grammar.first.1).1 outside xs)
    (h : m.grammar.LeftmostDerives is xs goal)
    (hgoal : ∀ y, goal.head? = some y → m.grammar.kind y ≠ .nonTerminal)
    (ht : t ∈ (m.grammar.first.1.ofSequence goal).1 ∨
      ((m.grammar.first.1.ofSequence goal).2 = true ∧ outside t)) (below : List Symbol) :
    ∃ steps form, m.Runs ⟨xs ++ below, position⟩ steps ⟨form ++ below, position⟩ ∧
      form.head? = goal.head? := by
  have hg := hm.wellFormed
  have hfirst := Grammar.firstClosed_first hg
  induction is generalizing xs with
  | nil =>
    cases h with
    | nil => exact ⟨[], goal, .nil _, rfl⟩
  | cons i is ih =>
    cases xs with
    | nil =>
      obtain ⟨habsurd, -⟩ := h.of_nil rfl
      cases habsurd
    | cons x xs =>
      by_cases hx : m.grammar.kind x = .nonTerminal
      · -- the first rule of the derivation is predicted, so it is the one taken
        obtain ⟨j, js, r, heq, hr, rfl, hrest⟩ := h.first_rule_of_head hx hgoal
        obtain ⟨rfl, rfl⟩ := List.cons.inj heq
        have hmem := List.mem_of_getElem? hr
        have hstep : m.grammar.Yields (r.left :: xs) (r.right ++ xs) := .replace [] xs hmem
        obtain ⟨hbegins, hvanishes⟩ := hfirst.derives hrest.derives
        have hfront : m.grammar.Covers m.grammar.first.1 (m.grammar.follow m.grammar.first.1).1
            outside ([] ++ r.left :: xs) := hcovers
        have hpredicted := Grammar.mem_lookaheadsOf_of_covers hg hmem hfront
          (ht.imp hbegins fun hout => ⟨hvanishes hout.1, hout.2⟩)
        have hnext := next_eq_expand_of_mem hm hll1 hr hlook hpredicted htoken (xs ++ below)
        obtain ⟨steps, form, hruns, hform⟩ :=
          ih (hcovers.yields hg hfirst (Grammar.followClosed_follow hg) hstep) hrest
        rw [List.append_assoc, ← apply_expand hr r.left] at hruns
        exact ⟨_, form, .cons hnext hruns, hform⟩
      · -- the front of the last form is already there
        obtain ⟨goal, rfl, -⟩ := h.behind hg hx
        exact ⟨[], x :: xs, .nil _, rfl⟩

/-- The symbol on top is replaced by the token, if it can begin with it. -/
theorem runs_to_token (hm : m.Standard) (hll1 : m.table.isLL1 = true)
    (hlook : t ∈ m.grammar.lookaheads) (htoken : m.tokens[position]? = some (m.grammar.name t))
    {x : Symbol} {rest : List Symbol} (h : m.grammar.Derives [x] (t :: rest))
    (below : List Symbol) :
    ∃ steps behind, m.Runs ⟨x :: below, position⟩ steps ⟨t :: behind, position⟩ := by
  have hg := hm.wellFormed
  have hkind := hg.kind_ne_nonTerminal_of_mem_lookaheads hlook
  obtain ⟨is, rest', hleftmost⟩ := h.leftmost_head hg
  have hgoal : ∀ y, (t :: rest').head? = some y → m.grammar.kind y ≠ .nonTerminal := by
    intro y hy
    rw [← Option.some.inj hy]
    exact hkind
  have hcovers : m.grammar.Covers m.grammar.first.1 (m.grammar.follow m.grammar.first.1).1
      (fun _ => False) [x] := Grammar.covers_singleton fun _ hfalse => hfalse.elim
  obtain ⟨steps, form, hruns, hform⟩ := runs_to_front hm hll1 hlook htoken hcovers hleftmost hgoal
    (.inl ((Grammar.firstClosed_first hg).mem_ofSequence_cons_self hg hlook)) below
  obtain ⟨behind, rfl⟩ : ∃ behind, form = t :: behind := List.head?_eq_some_iff.1 hform
  exact ⟨steps, behind ++ below, hruns⟩

/-- The symbol on top goes away, if it vanishes and the token can follow it. -/
theorem runs_to_below (hm : m.Standard) (hll1 : m.table.isLL1 = true)
    (hlook : t ∈ m.grammar.lookaheads) (htoken : m.tokens[position]? = some (m.grammar.name t))
    {x : Symbol} (h : m.grammar.Derives [x] [])
    (ht : t ∈ (m.grammar.follow m.grammar.first.1).1.get x) (below : List Symbol) :
    ∃ steps, m.Runs ⟨x :: below, position⟩ steps ⟨below, position⟩ := by
  obtain ⟨is, hleftmost⟩ := h.leftmost_word hm.wellFormed (by simp)
  have hcovers : m.grammar.Covers m.grammar.first.1 (m.grammar.follow m.grammar.first.1).1
      (· = t) [x] := by
    apply Grammar.covers_singleton
    intro u hu
    rw [hu]
    exact ht
  obtain ⟨steps, form, hruns, hform⟩ := runs_to_front hm hll1 hlook htoken hcovers hleftmost
    (by simp) (.inr ⟨rfl, rfl⟩) below
  obtain rfl : form = [] := List.head?_eq_none_iff.1 hform
  exact ⟨steps, hruns⟩

end Lookahead

/-! ### Every parse ends -/

/-- Without a non-terminal on top the parse ends here or reads the token. -/
theorem finishes_of_kind_ne {x : Symbol} {position : Nat} (hkind : m.grammar.kind x ≠ .nonTerminal)
    (hafter : ∀ stack, m.Finishes ⟨stack, position + 1⟩) (below : List Symbol) :
    m.Finishes ⟨x :: below, position⟩ := by
  cases hnext : m.next ⟨x :: below, position⟩ with
  | error verdict => exact .of_error hnext
  | ok action =>
    obtain ⟨top, under, token, hstack, -, -, turn⟩ := next_eq_ok_iff.1 hnext
    obtain ⟨rfl, rfl⟩ := List.cons.inj hstack
    cases turn with
    | advance => exact .of_ok hnext (hafter below)
    | expand kind => exact absurd kind hkind

/-- A rule is taken for a token that it predicts. -/
theorem mem_lookaheadsOf_of_ruleFor? (hm : m.Standard) {x : Symbol} {token : String} {i : Nat}
    (h : m.ruleFor? x token = some i) :
    ∃ r t, r ∈ m.grammar.rules ∧ r.left = x ∧ m.grammar.name t = token ∧
      t ∈ m.grammar.lookaheads ∧
      t ∈ Grammar.lookaheadsOf m.grammar.first.1 (m.grammar.follow m.grammar.first.1).1 r := by
  unfold ruleFor? at h
  obtain ⟨t, hsymbol, hhead⟩ := Option.bind_eq_some_iff.1 h
  have hcell := List.mem_of_head? hhead
  rw [hm.table_eq] at hcell
  obtain ⟨-, hlook, r, hr, hleft, hmem⟩ := Grammar.mem_rulesAt.1 hcell
  exact ⟨r, t, List.mem_of_getElem? hr, hleft, Grammar.name_of_symbol? hsymbol, hlook, hmem⟩

/-- Without conflicts the machine comes to an end on any stack at any place of
    the input. -/
theorem finishes (hm : m.Standard) (hll1 : m.table.isLL1 = true) (stack : List Symbol)
    (position : Nat) : m.Finishes ⟨stack, position⟩ := by
  -- first by the rest of the input, then by the stack
  generalize hn : m.tokens.length - position = n
  induction n using Nat.strongRecOn generalizing stack position with
  | ind n ihInput =>
    have hafter : position < m.tokens.length → ∀ stack, m.Finishes ⟨stack, position + 1⟩ := by
      intro hlt stack
      exact ihInput (m.tokens.length - (position + 1)) (by omega) stack _ rfl
    induction stack with
    | nil =>
      have hnext : m.next ⟨[], position⟩ = .error (.rejected (.unexpected Symbol.endMark)) := rfl
      exact .of_error hnext
    | cons x below ihStack =>
      cases hnext : m.next ⟨x :: below, position⟩ with
      | error verdict => exact .of_error hnext
      | ok action =>
        obtain ⟨top, under, token, hstack, htoken, -, turn⟩ := next_eq_ok_iff.1 hnext
        obtain ⟨rfl, rfl⟩ := List.cons.inj hstack
        have hlt : position < m.tokens.length := (List.getElem?_eq_some_iff.1 htoken).1
        cases turn with
        | advance => exact .of_ok hnext (hafter hlt below)
        | expand _ predicted =>
          obtain ⟨r, t, hr, rfl, rfl, hlook, hmem⟩ := mem_lookaheadsOf_of_ruleFor? hm predicted
          rcases Grammar.begins_or_vanishes_of_mem_lookaheadsOf hm.wellFormed hr hmem with
            ⟨rest, hrest⟩ | ⟨hnil, hfollow⟩
          · -- the token comes to the top, where it is read or accepted
            obtain ⟨steps, behind, hruns⟩ := runs_to_token hm hll1 hlook htoken hrest below
            have hkind := hm.wellFormed.kind_ne_nonTerminal_of_mem_lookaheads hlook
            exact .of_runs hruns (finishes_of_kind_ne hkind (hafter hlt) behind)
          · -- the symbol goes away, and the stack below it is shorter
            obtain ⟨steps, hruns⟩ := runs_to_below hm hll1 hlook htoken hnil hfollow below
            exact .of_runs hruns ihStack

end Machine

/-! ### Records -/

namespace Analysis

/-- A parse that comes to its end has one record with a verdict, under every
    limit that is not below the number of its steps, and without a limit. -/
theorem record_of_finishes {a : Analysis} {input : String}
    (h : (a.machine input).Finishes (a.machine input).initial) :
    ∃ t verdict, t.status = .finished verdict ∧
      (∀ limit fuel, t.steps.length ≤ limit → a.parse input (some limit) fuel = some t) ∧
      (∀ fuel, t.steps.length ≤ fuel → a.parse input none fuel = some t) := by
  obtain ⟨steps, last, verdict, hruns, hstop⟩ := h
  refine ⟨⟨(a.machine input).tokens, steps, .finished verdict⟩, verdict, rfl, ?_, ?_⟩
  · intro limit fuel hle
    exact Machine.parse_some_of_le hruns hstop hle
  · intro fuel hle
    exact Machine.parse_none_of_le hruns hstop hle

theorem exists_record {a : Analysis} {input : String} (hm : (a.machine input).Standard)
    (hll1 : a.table.isLL1 = true) : ∃ t verdict, t.status = .finished verdict ∧
      (∀ limit fuel, t.steps.length ≤ limit → a.parse input (some limit) fuel = some t) ∧
      (∀ fuel, t.steps.length ≤ fuel → a.parse input none fuel = some t) :=
  record_of_finishes (Machine.finishes hm hll1 _ _)

/-- A grammar text without conflicts ends the parse of every input: there is one
    record with a verdict, and it is the record under every limit that is not
    below the number of its steps, and without a limit. -/
theorem parse_finishes (text input : String) (hll1 : (ofText text).table.isLL1 = true) :
    ∃ t verdict, t.status = .finished verdict ∧
      (∀ limit fuel, t.steps.length ≤ limit →
        (ofText text).parse input (some limit) fuel = some t) ∧
      (∀ fuel, t.steps.length ≤ fuel → (ofText text).parse input none fuel = some t) :=
  exists_record (standard_ofText text input) hll1

/-- In `S -> a S | T` with `T -> T b` the second rule is left-recursive and derives
    no word, and no cell predicts two rules. The parse of `a b` is over after two
    steps: no rule is predicted for `S` (2) and `b`. -/
theorem parse_finishes_of_leftRecursion :
    let a := ofText "S -> a S | T\nT -> T b"
    let t : Trace :=
      { tokens := ["a", "b", "$"]
        steps := [⟨[2, 1], 0, .expand 0⟩, ⟨[3, 2, 1], 0, .advance 3⟩]
        status := .finished (.rejected (.noRule 2 "b")) }
    a.table.isLL1 = true ∧
      (∀ limit fuel, 2 ≤ limit → a.parse "a b" (some limit) fuel = some t) ∧
      (∀ fuel, 2 ≤ fuel → a.parse "a b" none fuel = some t) := by
  intro a t
  have hll1 : a.table.isLL1 = true := by decide
  have ht : a.parse "a b" none 2 = some t := by decide
  obtain ⟨long, verdict, -, hlimit, hfuel⟩ := parse_finishes "S -> a S | T\nT -> T b" "a b" hll1
  -- the record is the one that is made with little fuel
  obtain rfl : long = t := Machine.parse_unique (hfuel _ (Nat.le_refl _)) ht
  exact ⟨hll1, hlimit, hfuel⟩

end Analysis

end Predictive
