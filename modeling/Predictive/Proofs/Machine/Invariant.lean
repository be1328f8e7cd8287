import Predictive.Proofs.Machine.Acceptance

/-! # What holds at every step of a parse

    The machine has a verdict for configurations that should not be there: an
    empty stack, an input without a current token, `ε` on top of the stack. A
    parse never comes to one of them, whatever the grammar text and the input
    are; both may mention `$`.

    The invariant (`Machine.Intact`) has two parts that need each other. The
    stack ends with its own `$` below everything else, since a step takes only
    the top away and `$` on top is never taken (`Intact.move`). The input has a
    current token, since no step reads a `$` and the last token is one.

    Main result: `Analysis.parse_intact`.
-/

namespace Predictive

namespace Machine

/-- A configuration as a parse meets it. -/
structure Intact (m : Machine) (c : Configuration) : Prop where
  /-- `$` lies at the bottom of the stack. -/
  bottom : ∃ above, c.stack = above ++ [Symbol.endMark]
  epsilon : Symbol.epsilon ∉ c.stack
  /-- Only symbols of the grammar are on the stack. -/
  symbols : ∀ x ∈ c.stack, x < m.grammar.size
  /-- There is a current token. -/
  position : c.position < m.tokens.length

/-- What a step does with the stack: it takes the top, which is not the bottom,
    and leaves the rest as it is. -/
inductive Move (m : Machine) (c : Configuration) : Action → Prop where
  | expand {i : Nat} {r : Rule} {above : List Symbol} (rule : m.grammar.rules[i]? = some r)
    (stack : c.stack = r.left :: above ++ [Symbol.endMark])
    (next : m.apply c (.expand i) = ⟨r.right ++ above ++ [Symbol.endMark], c.position⟩) :
    Move m c (.expand i)
  | advance {x : Symbol} {above : List Symbol} (kind : m.grammar.kind x = .terminal)
    (ne_endMark : x ≠ Symbol.endMark)
    (stack : c.stack = x :: above ++ [Symbol.endMark])
    (token : m.tokens[c.position]? = some (m.grammar.name x))
    (next : m.apply c (.advance x) = ⟨above ++ [Symbol.endMark], c.position + 1⟩) :
    Move m c (.advance x)

variable {m : Machine} {c c' : Configuration} {action : Action} {steps : List Step}
variable {words : List String}

theorem intact_initial (hm : m.Standard) (htokens : m.tokens = words ++ [Symbol.endMarkName]) :
    m.Intact m.initial where
  bottom := ⟨m.grammar.start?.toList, rfl⟩
  epsilon := by
    intro hmem
    rcases List.mem_append.1 hmem with hstart | hmark
    · have hkind := hm.wellFormed.kind_start (Option.mem_toList.1 hstart)
      rw [hm.wellFormed.kind_epsilon] at hkind
      cases hkind
    · cases List.mem_singleton.1 hmark
  symbols := by
    intro x hx
    rcases List.mem_append.1 hx with hstart | hmark
    · exact Grammar.lt_size_of_nonTerminal (hm.wellFormed.kind_start (Option.mem_toList.1 hstart))
    · rw [List.mem_singleton.1 hmark]
      exact hm.wellFormed.endMark_lt_size
  position := by
    show 0 < m.tokens.length
    rw [htokens, List.length_append, List.length_singleton]
    omega

namespace Intact

/-- No verdict but acceptance, a missing rule and a mismatch is possible. -/
theorem next_ne_unexpected (hm : m.Standard) (h : m.Intact c) (x : Symbol) :
    m.next c ≠ .error (.rejected (.unexpected x)) := by
  intro hnext
  cases refusal_of_rejected hnext with
  | epsilon stack kind =>
    rw [hm.wellFormed.kind_eq_epsilon] at kind
    subst kind
    exact h.epsilon (stack ▸ List.mem_cons_self)
  | exhausted missing =>
    rcases missing with hempty | hnone
    · obtain ⟨above, hstack⟩ := h.bottom
      rw [hempty] at hstack
      exact List.append_ne_nil_of_right_ne_nil above (List.cons_ne_nil _ []) hstack.symm
    · exact absurd (List.getElem?_eq_none_iff.1 hnone) (Nat.not_le.2 h.position)

/-- What a step is: an advance reads a terminal, an expansion applies a rule of
    the symbol on top, and in both the symbol on top lies above the bottom. -/
theorem move (hm : m.Standard) (h : m.Intact c) (hnext : m.next c = .ok action) :
    m.Move c action := by
  obtain ⟨above, hstack⟩ := h.bottom
  obtain ⟨top, below, token, hcons, htoken, hmark, turn⟩ := next_eq_ok_iff.1 hnext
  have hne := turn.ne_endMark hm.wellFormed hmark
  obtain ⟨rest, rfl⟩ := eq_cons_of_ne_endMark (hstack.symm.trans hcons) hne
  have htail : c.stack.tail = rest ++ [Symbol.endMark] := by
    rw [hstack, List.cons_append, List.tail_cons]
  cases turn with
  | expand kind predicted =>
    obtain ⟨r, hr, rfl⟩ := hm.rule_of_ruleFor? predicted
    refine .expand hr hstack ?_
    show (⟨m.rightOf _ ++ c.stack.tail, c.position⟩ : Configuration) = _
    rw [rightOf_eq hr, htail, List.append_assoc]
  | advance kind name =>
    have hkind : m.grammar.kind top = .terminal := by
      rcases kind with kind | kind
      · exact kind
      · exact absurd (hm.wellFormed.kind_eq_endMarker.1 kind) hne
    refine .advance hkind hne hstack ?_ ?_
    · rw [name]
      exact htoken
    · show (⟨c.stack.tail, c.position + 1⟩ : Configuration) = _
      rw [htail]

/-- The invariant is kept by a step. -/
theorem step (hm : m.Standard) (htokens : m.tokens = words ++ [Symbol.endMarkName])
    (h : m.Intact c) (hnext : m.next c = .ok action) : m.Intact (m.apply c action) := by
  have hepsilon := h.epsilon
  have hsymbols := h.symbols
  cases h.move hm hnext with
  | @expand i r above rule stack next =>
    have hr := List.mem_of_getElem? rule
    -- the loader leaves `ε` out of every right side
    have hright : Symbol.epsilon ∉ r.right :=
      fun hmem => hm.wellFormed.ne_epsilon_of_mem_right hr hmem rfl
    rw [next]
    rw [stack] at hepsilon hsymbols
    refine ⟨⟨r.right ++ above, rfl⟩, ?_, ?_, h.position⟩
    · simp only [List.cons_append, List.mem_cons, List.mem_append, not_or] at hepsilon ⊢
      exact ⟨⟨hright, hepsilon.2.1⟩, hepsilon.2.2⟩
    · intro x hx
      rw [List.append_assoc, List.mem_append] at hx
      rcases hx with hx | hx
      · exact hm.wellFormed.lt_size_of_mem_right hr hx
      · exact hsymbols x (List.mem_cons_of_mem _ hx)
  | @advance x above kind ne_endMark stack token next =>
    rw [next]
    rw [stack] at hepsilon hsymbols
    refine ⟨⟨above, rfl⟩, ?_, ?_, ?_⟩
    · exact fun hmem => hepsilon (List.mem_cons_of_mem x hmem)
    · exact fun y hy => hsymbols y (List.mem_cons_of_mem x hy)
    · -- the last token is `$`, which is not read
      have hread := token_ne_of_advance hm hnext
      have hposition := h.position
      show c.position + 1 < m.tokens.length
      rw [htokens, List.length_append, List.length_singleton] at hposition ⊢
      rw [htokens] at hread
      have hlast : c.position ≠ words.length := by
        intro heq
        rw [heq, List.getElem?_concat_length] at hread
        exact hread rfl
      omega

/-- The invariant is kept by a run. -/
theorem runs (hm : m.Standard) (htokens : m.tokens = words ++ [Symbol.endMarkName])
    (h : m.Intact c) (hruns : m.Runs c steps c') : m.Intact c' := by
  induction hruns with
  | nil => exact h
  | cons next _ ih => exact ih (h.step hm htokens next)

end Intact

end Machine

namespace Analysis

/-- Every configuration that a parse comes to, after any number of steps, has
    `$` at the bottom of its stack, no `ε` on it and a current token. A step from
    there takes a terminal off the stack or replaces the left side of a rule by
    its right side, and leaves the bottom as it is; if there is no step, this is
    for one of the reasons that name a token. So all places of a record are
    intact, all its steps are moves, and its status is never a rejection for an
    unexpected symbol. -/
theorem parse_intact (text input : String) :
    let m := (ofText text).machine input
    (∀ steps c, m.Runs m.initial steps c → m.Intact c ∧
      (∀ action, m.next c = .ok action → m.Move c action) ∧
      ∀ x, m.next c ≠ .error (.rejected (.unexpected x))) ∧
    (∀ limit fuel t, (ofText text).parse input limit fuel = some t →
      ∃ last, m.Runs m.initial t.steps last ∧ (∀ c ∈ t.places last, m.Intact c) ∧
        (∀ s ∈ t.steps, m.Move s.place s.action) ∧
        ∀ x, t.status ≠ .finished (.rejected (.unexpected x))) := by
  intro m
  have hm : m.Standard := standard_ofText text input
  have hreached : ∀ steps c, m.Runs m.initial steps c → m.Intact c :=
    fun steps c hruns => (Machine.intact_initial hm tokens_machine).runs hm tokens_machine hruns
  constructor
  · intro steps c hruns
    have hintact := hreached steps c hruns
    exact ⟨hintact, fun action => hintact.move hm, hintact.next_ne_unexpected hm⟩
  · intro limit fuel t hparse
    obtain ⟨-, last, hruns, hverdict⟩ := Machine.runs_of_parse hparse
    refine ⟨last, hruns, ?_, ?_, ?_⟩
    · -- each place is reached by the steps before it
      intro c hc
      rcases List.mem_append.1 hc with hc | hc
      · obtain ⟨s, hs, rfl⟩ := List.mem_map.1 hc
        obtain ⟨i, hi⟩ := List.getElem?_of_mem hs
        exact hreached _ _ (hruns.visits hi).1
      · rw [List.mem_singleton.1 hc]
        exact hreached _ _ hruns
    · intro s hs
      obtain ⟨i, hi⟩ := List.getElem?_of_mem hs
      obtain ⟨hbefore, hnext, -⟩ := hruns.visits hi
      exact (hreached _ _ hbefore).move hm hnext
    · intro x hstatus
      exact (hreached _ _ hruns).next_ne_unexpected hm x (hverdict _ hstatus)

/-- In `S -> a S $ |` the symbols are `S` (2) and `a` (3). On the input `a $` the
    machine stops at the `$` that it was given, with another one than its own on
    top of the stack. -/
theorem parse_intact_of_endMark :
    let m := (ofText "S -> a S $ |").machine "a $"
    let t : Trace :=
      { tokens := ["a", "$", "$"]
        steps := [⟨[2, 1], 0, .expand 0⟩, ⟨[3, 2, 1, 1], 0, .advance 3⟩, ⟨[2, 1, 1], 1, .expand 1⟩]
        status := .finished .accepted }
    (m.Runs m.initial (t.steps.take 2) ⟨[2, 1, 1], 1⟩ ∧
      m.next ⟨[2, 1, 1], 1⟩ = .ok (.expand 1) ∧
      m.Intact ⟨[2, 1, 1], 1⟩ ∧ m.Move ⟨[2, 1, 1], 1⟩ (.expand 1)) ∧
    (ofText "S -> a S $ |").parse "a $" (some 7) 0 = some t ∧
      ∃ last, m.Runs m.initial t.steps last ∧ (∀ c ∈ t.places last, m.Intact c) ∧
        (∀ s ∈ t.steps, m.Move s.place s.action) ∧
        ∀ x, t.status ≠ .finished (.rejected (.unexpected x)) := by
  intro m t
  obtain ⟨hreached, hrecord⟩ := parse_intact "S -> a S $ |" "a $"
  have hfirst : m.next m.initial = .ok (.expand 0) := by decide
  have hsecond : m.next ⟨[3, 2, 1, 1], 0⟩ = .ok (.advance 3) := by decide
  have hruns : m.Runs m.initial (t.steps.take 2) ⟨[2, 1, 1], 1⟩ :=
    .cons hfirst (.cons hsecond (.nil _))
  have hthird : m.next ⟨[2, 1, 1], 1⟩ = .ok (.expand 1) := by decide
  obtain ⟨hintact, hmove, -⟩ := hreached _ _ hruns
  have hparse : (ofText "S -> a S $ |").parse "a $" (some 7) 0 = some t := by decide
  exact ⟨⟨hruns, hthird, hintact, hmove _ hthird⟩, hparse, hrecord _ _ t hparse⟩

end Analysis

end Predictive
