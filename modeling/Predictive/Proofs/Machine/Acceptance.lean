import Predictive.Proofs.Machine.Soundness

/-! # What an accepted input leaves behind

    The machine accepts where it meets `$` on its stack and in the input. It
    never goes past a `$`: no step reads the token `$` (`Runs.token_ne`), and
    none takes a `$` off the stack (`Runs.exists_stack`). So it accepts at the
    first `$` of the input and with every `$` that a rule has put on the stack
    still there. The input is read to its end just if its only `$` is the one
    behind it, and the stack is used up just if no rule has brought a `$`.

    Main result: `Analysis.consumed_of_accepted`.
-/

namespace Predictive

/-- No other symbol is called `$`. -/
theorem Grammar.WellFormed.eq_endMark_of_name {g : Grammar} (hg : g.WellFormed) {x : Symbol}
    (h : g.name x = Symbol.endMarkName) : x = Symbol.endMark := by
  rcases Nat.lt_or_ge x g.size with hlt | hge
  · rw [← hg.name_endMark] at h
    exact hg.eq_of_name_eq hlt hg.endMark_lt_size h
  · -- a number that is no symbol has no name
    unfold Grammar.name at h
    rw [List.getElem?_eq_none hge] at h
    exact absurd h (by decide)

/-- The rule with this number has `$` in its right side. -/
def Grammar.BringsEndMark (g : Grammar) (i : Nat) : Prop :=
  ∃ r, g.rules[i]? = some r ∧ Symbol.endMark ∈ r.right

namespace Machine

variable {m : Machine} {c c' : Configuration} {steps : List Step}

/-- The token that is read in a step is not `$`. -/
theorem token_ne_of_advance (hm : m.Standard) {x : Symbol} (h : m.next c = .ok (.advance x)) :
    m.tokens[c.position]? ≠ some Symbol.endMarkName := by
  obtain ⟨top, below, token, -, htoken, hmark, turn⟩ := next_eq_ok_iff.1 h
  cases turn with
  | advance _ name =>
    intro hend
    obtain rfl : token = Symbol.endMarkName := Option.some.inj (htoken.symm.trans hend)
    exact hmark ⟨hm.wellFormed.eq_endMark_of_name name, rfl⟩

/-- A step leaves `$` at the bottom. The symbols above lose or get a `$` only by
    a rule that has one. -/
theorem exists_stack_of_ok (hm : m.Standard) {action : Action} (h : m.next c = .ok action)
    {xs : List Symbol} (hstack : c.stack = xs ++ [Symbol.endMark]) :
    ∃ ys, (m.apply c action).stack = ys ++ [Symbol.endMark] ∧
      (Symbol.endMark ∈ ys ↔ Symbol.endMark ∈ xs ∨
        ∃ i, action = .expand i ∧ m.grammar.BringsEndMark i) := by
  obtain ⟨top, below, token, hcons, -, hmark, turn⟩ := next_eq_ok_iff.1 h
  have hne := turn.ne_endMark hm.wellFormed hmark
  obtain ⟨zs, rfl⟩ := eq_cons_of_ne_endMark (hstack.symm.trans hcons) hne
  cases turn with
  | advance =>
    refine ⟨zs, ?_, ?_⟩
    · show c.stack.tail = _
      rw [hstack, List.cons_append, List.tail_cons]
    · simp [hne.symm]
  | @expand i _ predicted =>
    obtain ⟨r, hr, rfl⟩ := hm.rule_of_ruleFor? predicted
    refine ⟨r.right ++ zs, ?_, ?_⟩
    · show m.rightOf i ++ c.stack.tail = _
      rw [rightOf_eq hr, hstack, List.cons_append, List.tail_cons, List.append_assoc]
    · have hbrings : m.grammar.BringsEndMark i ↔ Symbol.endMark ∈ r.right := by
        unfold Grammar.BringsEndMark
        simp [hr]
      simp [hne.symm, hbrings, or_comm]

namespace Runs

/-- No token that a run reads is `$`. -/
theorem token_ne (hm : m.Standard) (h : m.Runs c steps c') {i : Nat} (hle : c.position ≤ i)
    (hlt : i < c'.position) : m.tokens[i]? ≠ some Symbol.endMarkName := by
  induction h with
  | nil => omega
  | @cons c c' action steps next rest ih =>
    cases action with
    | expand => exact ih hle hlt
    | advance =>
      by_cases hi : i = c.position
      · rw [hi]
        exact token_ne_of_advance hm next
      · have hnext : c.position + 1 ≤ i := by omega
        exact ih hnext hlt

/-- Every `$` that the rules of a run bring stays on the stack, and no other is
    on it above the bottom. -/
theorem exists_stack (hm : m.Standard) (h : m.Runs c steps c') {xs : List Symbol}
    (hstack : c.stack = xs ++ [Symbol.endMark]) :
    ∃ ys, c'.stack = ys ++ [Symbol.endMark] ∧
      (Symbol.endMark ∈ ys ↔ Symbol.endMark ∈ xs ∨
        ∃ i ∈ expansions steps, m.grammar.BringsEndMark i) := by
  induction h generalizing xs with
  | nil => exact ⟨xs, hstack, by simp [expansions]⟩
  | @cons c c' action steps next _ ih =>
    obtain ⟨ys, hys, hfirst⟩ := exists_stack_of_ok hm next hstack
    obtain ⟨zs, hzs, hrest⟩ := ih hys
    refine ⟨zs, hzs, ?_⟩
    rw [hrest, hfirst]
    cases action with
    | advance x => simp [expansions, Action.rule?]
    | expand i => simp [expansions, Action.rule?, or_assoc]

end Runs

/-- The stack at the beginning: no `$` above the bottom. -/
theorem exists_initial_stack (hm : m.Standard) :
    ∃ xs, m.initial.stack = xs ++ [Symbol.endMark] ∧ Symbol.endMark ∉ xs := by
  refine ⟨m.grammar.start?.toList, rfl, ?_⟩
  intro hmem
  have hkind := hm.wellFormed.kind_start (Option.mem_toList.1 hmem)
  rw [hm.wellFormed.kind_endMark] at hkind
  cases hkind

/-- Where a run from the beginning is accepted, the input is read up to its
    first `$`. -/
theorem read_iff_of_accepted (hm : m.Standard) {words : List String}
    (htokens : m.tokens = words ++ [Symbol.endMarkName]) (h : m.Runs m.initial steps c)
    (hstop : m.next c = .error .accepted) :
    (advances steps).length + 1 = m.tokens.length ↔ Symbol.endMarkName ∉ words := by
  obtain ⟨below, -, htoken⟩ := next_eq_accepted_iff.1 hstop
  have hzero : m.initial.position = 0 := rfl
  have hposition : c.position = (advances steps).length := by
    rw [h.position_eq, hzero, Nat.zero_add]
  have hlength : m.tokens.length = words.length + 1 := by
    rw [htokens, List.length_append, List.length_singleton]
  constructor
  · -- every word is read, and what is read is not `$`
    intro hall hmem
    obtain ⟨i, hi⟩ := List.getElem?_of_mem hmem
    have hlt : i < words.length := (List.getElem?_eq_some_iff.1 hi).1
    have hne := h.token_ne hm (Nat.zero_le i) (by omega)
    rw [htokens, List.getElem?_append_left hlt] at hne
    exact hne hi
  · intro hwords
    rw [htokens] at htoken
    rw [hlength, ← hposition, eq_length_of_endMark htoken hwords]

/-- Where a run from the beginning is accepted, the stack is used up unless a
    rule has brought a `$`. -/
theorem stack_iff_of_accepted (hm : m.Standard) (h : m.Runs m.initial steps c)
    (hstop : m.next c = .error .accepted) :
    c.stack = [Symbol.endMark] ↔ ∀ i ∈ expansions steps, ¬m.grammar.BringsEndMark i := by
  obtain ⟨below, hcons, -⟩ := next_eq_accepted_iff.1 hstop
  obtain ⟨xs, hxs, hnone⟩ := exists_initial_stack hm
  obtain ⟨ys, hys, hbrings⟩ := h.exists_stack hm hxs
  have hempty : c.stack = [Symbol.endMark] ↔ Symbol.endMark ∉ ys := by
    rw [hys] at hcons ⊢
    cases ys with
    | nil => simp
    | cons y ys =>
      -- what is accepted has `$` on top
      obtain ⟨rfl, -⟩ := List.cons.inj hcons
      simp
  rw [hempty, hbrings]
  simp [hnone]

end Machine

/-! ### Records -/

namespace Analysis

theorem consumed_of_parse {a : Analysis} {input : String} {limit : Option Nat} {fuel : Nat}
    {t : Trace} (hm : (a.machine input).Standard) (ht : a.parse input limit fuel = some t)
    (haccepted : t.accepted = true) :
    ∃ last, (a.machine input).Runs (a.machine input).initial t.steps last ∧
      ((advances t.steps).length + 1 = t.tokens.length ↔
        Symbol.endMarkName ∉ Phrase.names input.toList) ∧
      (last.stack = [Symbol.endMark] ↔ ∀ i ∈ expansions t.steps, ¬a.grammar.BringsEndMark i) := by
  obtain ⟨htokens, last, hruns, hverdict⟩ := Machine.runs_of_parse ht
  have hstop := hverdict .accepted (of_decide_eq_true haccepted)
  refine ⟨last, hruns, ?_, Machine.stack_iff_of_accepted hm hruns hstop⟩
  rw [htokens]
  exact Machine.read_iff_of_accepted hm tokens_machine hruns hstop

/-- What an accepted input leaves behind. Every token before the last one is
    read just if none of them is `$`, and only `$` is left on the stack just if
    no rule that was expanded has `$` in its right side. -/
theorem consumed_of_accepted (text input : String) (limit : Option Nat) (fuel : Nat) {t : Trace}
    (ht : (ofText text).parse input limit fuel = some t) (haccepted : t.accepted = true) :
    ∃ last, ((ofText text).machine input).Runs ((ofText text).machine input).initial t.steps last ∧
      ((advances t.steps).length + 1 = t.tokens.length ↔
        Symbol.endMarkName ∉ Phrase.names input.toList) ∧
      (last.stack = [Symbol.endMark] ↔
        ∀ i ∈ expansions t.steps, ¬(ofText text).grammar.BringsEndMark i) :=
  consumed_of_parse (standard_ofText text input) ht haccepted

/-- In `S -> a $` the input `a` is read, but a second `$` stays on the stack. -/
theorem consumed_of_accepted_of_endMark :
    let a := ofText "S -> a $"
    let t : Trace :=
      { tokens := ["a", "$"]
        steps := [⟨[2, 1], 0, .expand 0⟩, ⟨[3, 1, 1], 0, .advance 3⟩]
        status := .finished .accepted }
    a.parse "a" none 2 = some t ∧ t.accepted = true ∧
      ∃ last, (a.machine "a").Runs (a.machine "a").initial t.steps last ∧
        ((advances t.steps).length + 1 = t.tokens.length ↔
          Symbol.endMarkName ∉ Phrase.names "a".toList) ∧
        (last.stack = [Symbol.endMark] ↔
          ∀ i ∈ expansions t.steps, ¬a.grammar.BringsEndMark i) := by
  intro a t
  have ht : a.parse "a" none 2 = some t := by decide
  exact ⟨ht, rfl, consumed_of_accepted "S -> a $" "a" none 2 ht rfl⟩

/-- In `S -> $ a` the input `$ b` is accepted after the expansion: no token is
    read, and `$ a` is still on the stack. -/
theorem accepted_with_input_left :
    ∃ t last, (ofText "S -> $ a").parse "$ b" (some 25) 0 = some t ∧ t.accepted = true ∧
      ((ofText "S -> $ a").machine "$ b").Runs ((ofText "S -> $ a").machine "$ b").initial
        t.steps last ∧
      (advances t.steps).length + 1 ≠ t.tokens.length ∧ last.stack ≠ [Symbol.endMark] := by
  let t : Trace :=
    { tokens := ["$", "b", "$"]
      steps := [⟨[2, 1], 0, .expand 0⟩]
      status := .finished .accepted }
  have ht : (ofText "S -> $ a").parse "$ b" (some 25) 0 = some t := by decide
  have hnext : ((ofText "S -> $ a").machine "$ b").next ⟨[2, 1], 0⟩ = .ok (.expand 0) := rfl
  exact ⟨t, ⟨[1, 3, 1], 0⟩, ht, rfl, .cons hnext (.nil _), by decide, by decide⟩

end Analysis

end Predictive
