import Predictive.Machine

/-! # Runs of the machine

    What one step can be (`Machine.Turn`, `next_eq_ok_iff`), and what a
    sequence of steps is (`Machine.Runs`), said without counting fuel. The
    fuelled `Machine.run` makes just these steps: it stops with them where the
    machine has a verdict (`run_of_runs`), and with the first `fuel` of them if
    there are more (`run_of_lt`). What a record says about a run is collected in
    `runs_of_parse`.
-/

namespace Predictive

/-- Where a step is made. -/
def Step.place (s : Step) : Configuration := { stack := s.stack, position := s.position }

/-- The rule of an expansion. -/
def Action.rule? : Action → Option Nat
  | expand rule => some rule
  | advance _ => none

/-- The rules of the expansions, in order. -/
def expansions (steps : List Step) : List Nat := steps.filterMap fun s => s.action.rule?

/-- The terminal of an advance. -/
def Action.terminal? : Action → Option Symbol
  | expand _ => none
  | advance terminal => some terminal

/-- The terminals that are read, in order. -/
def advances (steps : List Step) : List Symbol := steps.filterMap fun s => s.action.terminal?

/-- The configurations of a record, with the one in which it ends. -/
def Trace.places (t : Trace) (last : Configuration) : List Configuration :=
  t.steps.map Step.place ++ [last]

namespace Machine

variable {m : Machine} {c c' : Configuration} {action : Action} {steps : List Step}
variable {verdict : Verdict} {fuel : Nat}

/-! ### One step -/

/-- What the machine can do with a symbol on top and a token. -/
inductive Turn (m : Machine) (top : Symbol) (token : String) : Action → Prop where
  | expand {rule : Nat} (kind : m.grammar.kind top = .nonTerminal)
    (predicted : m.ruleFor? top token = some rule) : Turn m top token (.expand rule)
  | advance (kind : m.grammar.kind top = .terminal ∨ m.grammar.kind top = .endMarker)
    (name : m.grammar.name top = token) : Turn m top token (.advance top)

/-- The machine goes on just if its symbol and its token have a turn, and are
    not both `$`. -/
theorem next_eq_ok_iff : m.next c = .ok action ↔
    ∃ top below token, c.stack = top :: below ∧ m.tokens[c.position]? = some token ∧
      ¬(top = Symbol.endMark ∧ token = Symbol.endMarkName) ∧ m.Turn top token action := by
  constructor
  · intro h
    unfold next at h
    split at h
    · next top below token hstack htoken =>
      refine ⟨top, below, token, hstack, htoken, ?_⟩
      split at h
      · cases h
      · next hmark =>
        refine ⟨hmark, ?_⟩
        cases hkind : m.grammar.kind top with
        | nonTerminal =>
          simp only [hkind] at h
          cases hrule : m.ruleFor? top token with
          | none => simp [hrule] at h
          | some rule =>
            simp only [hrule] at h
            cases h
            exact .expand hkind hrule
        | epsilon => simp [hkind] at h
        | terminal =>
          simp only [hkind] at h
          split at h
          · next hname =>
            cases h
            exact .advance (.inl hkind) hname
          · cases h
        | endMarker =>
          simp only [hkind] at h
          split at h
          · next hname =>
            cases h
            exact .advance (.inr hkind) hname
          · cases h
    · cases h
  · intro h
    obtain ⟨top, below, token, hstack, htoken, hmark, turn⟩ := h
    unfold next
    rw [hstack, htoken]
    simp only
    rw [if_neg hmark]
    cases turn with
    | expand kind predicted => simp only [kind, predicted]
    | advance kind name =>
      rcases kind with kind | kind
      · simp only [kind]
        rw [if_pos name]
      · simp only [kind]
        rw [if_pos name]

/-- The machine accepts just where it meets `$` on both sides. -/
theorem next_eq_accepted_iff : m.next c = .error .accepted ↔
    ∃ below, c.stack = Symbol.endMark :: below ∧
      m.tokens[c.position]? = some Symbol.endMarkName := by
  constructor
  · intro h
    unfold next at h
    split at h
    · next top below token hstack htoken =>
      split at h
      · next hmark =>
        obtain ⟨rfl, rfl⟩ := hmark
        exact ⟨below, hstack, htoken⟩
      · -- every other verdict is a rejection
        split at h
        · split at h <;> cases h
        · split at h <;> cases h
        · split at h <;> cases h
        · cases h
    · cases h
  · intro h
    obtain ⟨below, hstack, htoken⟩ := h
    unfold next
    rw [hstack, htoken]
    exact if_pos ⟨rfl, rfl⟩

/-- Why the machine can refuse to go on. -/
inductive Refusal (m : Machine) (c : Configuration) : Rejection → Prop where
  | noRule {x : Symbol} {below : List Symbol} {token : String} (stack : c.stack = x :: below)
    (current : m.tokens[c.position]? = some token) (kind : m.grammar.kind x = .nonTerminal)
    (unpredicted : m.ruleFor? x token = none) : Refusal m c (.noRule x token)
  | mismatch {x : Symbol} {below : List Symbol} {token : String} (stack : c.stack = x :: below)
    (current : m.tokens[c.position]? = some token)
    (kind : m.grammar.kind x = .terminal ∨ m.grammar.kind x = .endMarker)
    (name : m.grammar.name x ≠ token) : Refusal m c (.mismatch x token)
  | epsilon {x : Symbol} {below : List Symbol} (stack : c.stack = x :: below)
    (kind : m.grammar.kind x = .epsilon) : Refusal m c (.unexpected x)
  | exhausted (missing : c.stack = [] ∨ m.tokens[c.position]? = none) :
    Refusal m c (.unexpected Symbol.endMark)

theorem refusal_of_rejected {reason : Rejection} (h : m.next c = .error (.rejected reason)) :
    m.Refusal c reason := by
  unfold next at h
  split at h
  · next top below token hstack htoken =>
    split at h
    · cases h
    · cases hkind : m.grammar.kind top with
      | nonTerminal =>
        simp only [hkind] at h
        cases hrule : m.ruleFor? top token with
        | some rule => simp [hrule] at h
        | none =>
          simp only [hrule] at h
          cases h
          exact .noRule hstack htoken hkind hrule
      | terminal =>
        simp only [hkind] at h
        split at h
        · cases h
        · next hname =>
          cases h
          exact .mismatch hstack htoken (.inl hkind) hname
      | endMarker =>
        simp only [hkind] at h
        split at h
        · cases h
        · next hname =>
          cases h
          exact .mismatch hstack htoken (.inr hkind) hname
      | epsilon =>
        simp only [hkind] at h
        cases h
        exact .epsilon hstack hkind
  · next hmissing =>
    cases h
    apply Refusal.exhausted
    -- a stack with a top and a current token have been dealt with above
    cases hstack : c.stack with
    | nil => exact .inl rfl
    | cons top below =>
      cases htoken : m.tokens[c.position]? with
      | none => exact .inr rfl
      | some token => exact absurd htoken (hmissing top below token hstack)

theorem rightOf_eq {i : Nat} {r : Rule} (hr : m.grammar.rules[i]? = some r) :
    m.rightOf i = r.right := by
  unfold rightOf
  rw [hr]
  rfl

theorem apply_expand {i : Nat} {r : Rule} (hr : m.grammar.rules[i]? = some r) (top : Symbol)
    (below : List Symbol) (position : Nat) :
    m.apply ⟨top :: below, position⟩ (.expand i) = ⟨r.right ++ below, position⟩ := by
  show (⟨m.rightOf i ++ below, position⟩ : Configuration) = _
  rw [rightOf_eq hr]

theorem apply_advance (top x : Symbol) (below : List Symbol) (position : Nat) :
    m.apply ⟨top :: below, position⟩ (.advance x) = ⟨below, position + 1⟩ := rfl

/-- The first `$` among the tokens is the last token, if no word is `$`. -/
theorem eq_length_of_endMark {words : List String} {i : Nat}
    (h : (words ++ [Symbol.endMarkName])[i]? = some Symbol.endMarkName)
    (hwords : Symbol.endMarkName ∉ words) : i = words.length := by
  have hlt : i < (words ++ [Symbol.endMarkName]).length := (List.getElem?_eq_some_iff.1 h).1
  rw [List.length_append, List.length_singleton] at hlt
  have hge : ¬i < words.length := by
    intro hlt
    rw [List.getElem?_append_left hlt] at h
    exact hwords (List.mem_of_getElem? h)
  omega

/-! ### Sequences of steps -/

/-- The machine makes these steps on its way from one configuration to
    another. -/
inductive Runs (m : Machine) : Configuration → List Step → Configuration → Prop where
  | nil (c : Configuration) : Runs m c [] c
  | cons {c c' : Configuration} {action : Action} {steps : List Step}
    (next : m.next c = .ok action) (rest : Runs m (m.apply c action) steps c') :
    Runs m c (⟨c.stack, c.position, action⟩ :: steps) c'

namespace Runs

/-- Runs follow one another. -/
theorem append {c'' : Configuration} {steps' : List Step} (h : m.Runs c steps c')
    (k : m.Runs c' steps' c'') : m.Runs c (steps ++ steps') c'' := by
  induction h with
  | nil => exact k
  | cons next _ ih => exact .cons next (ih k)

/-- The input goes on by one token with each advance. -/
theorem position_eq (h : m.Runs c steps c') :
    c'.position = c.position + (advances steps).length := by
  induction h with
  | nil => rfl
  | @cons c c' action steps _ _ ih =>
    rw [ih]
    cases action with
    | expand => rfl
    | advance => exact Nat.succ_add_eq_add_succ _ _

/-- A run begins in the first of its configurations. -/
theorem getElem?_zero (h : m.Runs c steps c') :
    (steps.map Step.place ++ [c'])[0]? = some c := by
  cases h with
  | nil => rfl
  | cons => rfl

/-- Each step is made where the steps before it lead, and leads to the next
    configuration. -/
theorem visits {i : Nat} {s : Step} (h : m.Runs c steps c') (hs : steps[i]? = some s) :
    m.Runs c (steps.take i) s.place ∧ m.next s.place = .ok s.action ∧
      (steps.map Step.place ++ [c'])[i + 1]? = some (m.apply s.place s.action) := by
  induction h generalizing i with
  | nil c => cases hs
  | @cons c c' action steps next rest ih =>
    cases i with
    | zero =>
      obtain rfl : (⟨c.stack, c.position, action⟩ : Step) = s := Option.some.inj hs
      exact ⟨.nil c, next, rest.getElem?_zero⟩
    | succ i =>
      obtain ⟨hbefore, hnext, hafter⟩ := ih hs
      exact ⟨.cons next hbefore, hnext, hafter⟩

end Runs

/-! ### Runs with fuel -/

theorem run_of_error (h : m.next c = .error verdict) : m.run fuel c = ([], some verdict) := by
  unfold run
  rw [h]

theorem run_zero_of_ok (h : m.next c = .ok action) : m.run 0 c = ([], none) := by
  unfold run
  rw [h]

theorem run_succ_of_ok (h : m.next c = .ok action) : m.run (fuel + 1) c =
    (⟨c.stack, c.position, action⟩ :: (m.run fuel (m.apply c action)).1,
      (m.run fuel (m.apply c action)).2) := by
  rw [run, h]

/-- The steps of `run` are a run; it ends with a verdict, or after `fuel`
    steps. -/
theorem runs_run (m : Machine) (fuel : Nat) (c : Configuration) :
    ∃ c', m.Runs c (m.run fuel c).1 c' ∧
      ∀ verdict, (m.run fuel c).2 = some verdict → m.next c' = .error verdict := by
  induction fuel generalizing c with
  | zero =>
    cases hnext : m.next c with
    | error verdict =>
      rw [run_of_error hnext]
      refine ⟨c, .nil c, ?_⟩
      intro v hv
      rw [hnext, Option.some.inj hv]
    | ok action =>
      refine ⟨c, ?_, ?_⟩
      · rw [run_zero_of_ok hnext]
        exact .nil c
      · intro v hv
        rw [run_zero_of_ok hnext] at hv
        cases hv
  | succ fuel ih =>
    cases hnext : m.next c with
    | error verdict =>
      rw [run_of_error hnext]
      refine ⟨c, .nil c, ?_⟩
      intro v hv
      rw [hnext, Option.some.inj hv]
    | ok action =>
      obtain ⟨c', hrest, hverdict⟩ := ih (m.apply c action)
      rw [run_succ_of_ok hnext]
      exact ⟨c', .cons hnext hrest, hverdict⟩

/-- With enough fuel `run` makes all steps up to the verdict. -/
theorem run_of_runs (h : m.Runs c steps c') (hstop : m.next c' = .error verdict)
    (hfuel : steps.length ≤ fuel) : m.run fuel c = (steps, some verdict) := by
  induction h generalizing fuel with
  | nil => exact run_of_error hstop
  | cons next _ ih =>
    cases fuel with
    | zero => cases hfuel
    | succ fuel =>
      rw [run_succ_of_ok next, ih hstop (Nat.le_of_succ_le_succ hfuel)]

/-- With too little fuel `run` makes the first steps only. -/
theorem run_of_lt (h : m.Runs c steps c') (hfuel : fuel < steps.length) :
    m.run fuel c = (steps.take fuel, none) := by
  induction h generalizing fuel with
  | nil => cases hfuel
  | cons next _ ih =>
    cases fuel with
    | zero => rw [run_zero_of_ok next, List.take_zero]
    | succ fuel =>
      rw [run_succ_of_ok next, ih (Nat.lt_of_succ_lt_succ hfuel), List.take_succ_cons]

/-! ### Records -/

/-- A record holds a run from the beginning; if the parse is over, it ends with
    the verdict of the machine. -/
theorem runs_of_parse {limit : Option Nat} {t : Trace} (h : m.parse limit fuel = some t) :
    t.tokens = m.tokens ∧ ∃ last, m.Runs m.initial t.steps last ∧
      ∀ verdict, t.status = .finished verdict → m.next last = .error verdict := by
  unfold parse at h
  cases limit with
  | some n =>
    simp only [Option.some.injEq] at h
    subst h
    unfold parseWithin
    obtain ⟨last, hruns, hverdict⟩ := runs_run m n m.initial
    refine ⟨rfl, last, hruns, ?_⟩
    intro v hv
    apply hverdict
    cases hrun : (m.run n m.initial).2 with
    | none => simp [hrun] at hv
    | some w =>
      simp only [hrun, Option.map_some, Option.getD_some, Status.finished.injEq] at hv
      rw [hv]
  | none =>
    simp only at h
    unfold parse? at h
    obtain ⟨last, hruns, hverdict⟩ := runs_run m fuel m.initial
    obtain ⟨w, hw, rfl⟩ := Option.map_eq_some_iff.1 h
    refine ⟨rfl, last, hruns, ?_⟩
    intro v hv
    obtain rfl := Status.finished.inj hv
    exact hverdict w hw

section Complete

variable (h : m.Runs m.initial steps c) (hstop : m.next c = .error verdict)

include h hstop

/-- A limit that is not below the number of steps does not matter. -/
theorem parse_some_of_le {limit : Nat} (hle : steps.length ≤ limit) :
    m.parse (some limit) fuel = some ⟨m.tokens, steps, .finished verdict⟩ := by
  unfold parse parseWithin
  simp only [run_of_runs h hstop hle, Option.map_some, Option.getD_some]

theorem parse_none_of_le (hle : steps.length ≤ fuel) :
    m.parse none fuel = some ⟨m.tokens, steps, .finished verdict⟩ := by
  unfold parse parse?
  simp only [run_of_runs h hstop hle, Option.map_some]

omit hstop in
/-- Under a limit below the number of steps the machine gives up. -/
theorem parse_some_of_lt {limit : Nat} (hlt : limit < steps.length) :
    m.parse (some limit) fuel = some ⟨m.tokens, steps.take limit, .gaveUp limit⟩ := by
  unfold parse parseWithin
  simp only [run_of_lt h hlt, Option.map_none, Option.getD_none]

end Complete

end Machine

end Predictive
