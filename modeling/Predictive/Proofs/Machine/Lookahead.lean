import Predictive.Proofs.Machine.Limits

/-! # One token of lookahead

    What the machine does at a configuration depends on the input only through
    the token at its position (`next_onTokens`). So a run is a run on every
    input that has the same tokens where the steps of the run are made
    (`Runs.onTokens`), and no step is made beyond the position where the run
    ends (`Runs.position_le`). There is one record of a parse at most, however
    much fuel there is (`parse_unique`).

    Two inputs with the same first tokens are parsed alike as long as no other
    token is looked at. A parse that stops there is the same for both
    (`parse_onTokens`); if it goes on, the steps up to there are the same
    (`filter_run_onTokens`).

    Main result: `Analysis.parse_of_same_beginning`.
-/

namespace Predictive

namespace Machine

variable {m : Machine} {c c' d d' : Configuration} {steps steps' : List Step}
variable {tokens : List String} {verdict verdict' : Verdict}

/-- The machine on another input. -/
def onTokens (m : Machine) (tokens : List String) : Machine := { m with tokens := tokens }

/-- Only the token at the position of a configuration matters there. -/
theorem next_onTokens (h : tokens[c.position]? = m.tokens[c.position]?) :
    (m.onTokens tokens).next c = m.next c := by
  have htoken : (m.onTokens tokens).tokens[c.position]? = m.tokens[c.position]? := h
  unfold next
  rw [htoken]
  rfl

namespace Runs

/-- A run goes through on an input with the same tokens at its steps. -/
theorem onTokens (h : m.Runs c steps c')
    (hagree : ∀ s ∈ steps, tokens[s.position]? = m.tokens[s.position]?) :
    (m.onTokens tokens).Runs c steps c' := by
  induction h with
  | nil c => exact .nil c
  | @cons c c' action steps next rest ih =>
    have hfirst : tokens[c.position]? = m.tokens[c.position]? :=
      hagree ⟨c.stack, c.position, action⟩ List.mem_cons_self
    have hnext : (m.onTokens tokens).next c = .ok action := by
      rw [next_onTokens hfirst, next]
    exact .cons hnext (ih fun s hs => hagree s (List.mem_cons_of_mem _ hs))

/-- The position does not go back. -/
theorem position_le (h : m.Runs c steps c') : ∀ s ∈ steps, s.position ≤ c'.position := by
  induction h with
  | nil => simp
  | @cons c c' action steps next rest ih =>
    intro s hs
    rcases List.mem_cons.1 hs with rfl | hs
    · have hrest := rest.position_eq
      have hstep : c.position ≤ (m.apply c action).position := by
        cases action with
        | expand => exact Nat.le_refl _
        | advance => exact Nat.le_succ _
      show c.position ≤ c'.position
      omega
    · exact ih s hs

/-- A run that ends with a verdict is the only one to do so. -/
theorem unique (h : m.Runs c steps d) (hstop : m.next d = .error verdict)
    (h' : m.Runs c steps' d') (hstop' : m.next d' = .error verdict') :
    steps = steps' ∧ verdict = verdict' := by
  -- with fuel for both, they are the same fuelled run
  have hrun := run_of_runs h hstop (Nat.le_add_right steps.length steps'.length)
  rw [run_of_runs h' hstop' (Nat.le_add_left steps'.length steps.length)] at hrun
  simp only [Prod.mk.injEq, Option.some.injEq] at hrun
  exact ⟨hrun.1.symm, hrun.2.symm⟩

end Runs

/-- A parse without a limit does not give up. -/
theorem exists_finished_of_parse_none {fuel : Nat} {t : Trace} (h : m.parse none fuel = some t) :
    ∃ verdict, t.status = .finished verdict := by
  simp only [parse, parse?, Option.map_eq_some_iff] at h
  obtain ⟨verdict, -, rfl⟩ := h
  exact ⟨verdict, rfl⟩

/-- The record of a parse does not depend on the fuel. -/
theorem parse_unique {limit : Option Nat} {fuel fuel' : Nat} {t t' : Trace}
    (h : m.parse limit fuel = some t) (h' : m.parse limit fuel' = some t') : t = t' := by
  cases limit with
  | some n =>
    rw [parse] at h h'
    exact Option.some.inj (h.symm.trans h')
  | none =>
    obtain ⟨verdict, hverdict⟩ := exists_finished_of_parse_none h
    obtain ⟨verdict', hverdict'⟩ := exists_finished_of_parse_none h'
    obtain ⟨htokens, last, hruns, hstop⟩ := runs_of_parse h
    obtain ⟨htokens', last', hruns', hstop'⟩ := runs_of_parse h'
    obtain ⟨hsteps, rfl⟩ := hruns.unique (hstop verdict hverdict) hruns' (hstop' verdict' hverdict')
    cases t
    cases t'
    simp_all only

/-! ### Inputs with the same beginning -/

section Agree

variable {p fuel fuel' : Nat} {limit : Option Nat} {t t' : Trace}

/-- A run does not go back behind the position where it begins. -/
theorem Runs.le_position (h : m.Runs c steps c') : ∀ s ∈ steps, c.position ≤ s.position := by
  intro s hs
  obtain ⟨i, hi⟩ := List.getElem?_of_mem hs
  obtain ⟨hbefore, -, -⟩ := h.visits hi
  have hposition : s.position = c.position + _ := hbefore.position_eq
  omega

/-- The steps of `run` are what a record holds. -/
theorem steps_of_parse (h : m.parse limit fuel = some t) :
    t.steps = (m.run (limit.getD fuel) m.initial).1 := by
  cases limit with
  | some n =>
    rw [parse_some_eq] at h
    obtain rfl := Option.some.inj h
    rfl
  | none =>
    obtain ⟨verdict, -, rfl⟩ := Option.map_eq_some_iff.1 h
    rfl

/-- From a position beyond the common tokens on, no step counts. -/
theorem filter_run_eq_nil (h : p ≤ c.position) :
    (m.run fuel c).1.filter (·.position < p) = [] := by
  obtain ⟨c', hruns, -⟩ := runs_run m fuel c
  rw [List.filter_eq_nil_iff]
  intro s hs
  have hposition := hruns.le_position s hs
  simp only [decide_eq_true_eq]
  omega

variable (hagree : ∀ i < p, tokens[i]? = m.tokens[i]?)

include hagree

/-- The steps of a run before the first other token do not depend on what
    follows. -/
theorem filter_run_onTokens (fuel : Nat) (c : Configuration) :
    ((m.onTokens tokens).run fuel c).1.filter (·.position < p)
      = (m.run fuel c).1.filter (·.position < p) := by
  induction fuel generalizing c with
  | zero =>
    by_cases hp : p ≤ c.position
    · rw [filter_run_eq_nil hp, filter_run_eq_nil hp]
    · have hsame := next_onTokens (hagree c.position (by omega))
      cases hnext : m.next c with
      | error verdict => rw [run_of_error hnext, run_of_error (hsame.trans hnext)]
      | ok action => rw [run_zero_of_ok hnext, run_zero_of_ok (hsame.trans hnext)]
  | succ fuel ih =>
    by_cases hp : p ≤ c.position
    · rw [filter_run_eq_nil hp, filter_run_eq_nil hp]
    · have hsame := next_onTokens (hagree c.position (by omega))
      cases hnext : m.next c with
      | error verdict => rw [run_of_error hnext, run_of_error (hsame.trans hnext)]
      | ok action =>
        -- the step is the same, and leads to the same configuration
        have happly : (m.onTokens tokens).apply c action = m.apply c action := rfl
        rw [run_succ_of_ok hnext, run_succ_of_ok (hsame.trans hnext), happly]
        simp only [List.filter_cons, ih]

/-- Records on both inputs hold the same steps before the first other token. -/
theorem filter_steps_onTokens (h : m.parse limit fuel = some t)
    (h' : (m.onTokens tokens).parse limit fuel' = some t') :
    t'.steps.filter (·.position < p) = t.steps.filter (·.position < p) := by
  -- with fuel for both, they are the same fuelled run
  have hsteps := steps_of_parse (parse_mono h (Nat.le_add_right fuel fuel'))
  have hsteps' := steps_of_parse (parse_mono h' (Nat.le_add_left fuel' fuel))
  rw [hsteps, hsteps']
  exact filter_run_onTokens hagree _ _

/-- A parse that stops before the first other token stops there on both
    inputs. -/
theorem parse_onTokens (h : m.parse limit fuel = some t) (hread : (advances t.steps).length < p) :
    (m.onTokens tokens).parse limit fuel = some { t with tokens := tokens } := by
  obtain ⟨-, last, hruns, hstops⟩ := parse_eq_some_iff.1 h
  have hinitial : m.initial.position = 0 := rfl
  have hlast : last.position < p := by
    rw [hruns.position_eq, hinitial]
    omega
  have hruns' : (m.onTokens tokens).Runs m.initial t.steps last := by
    apply hruns.onTokens
    intro s hs
    exact hagree _ (Nat.lt_of_le_of_lt (hruns.position_le s hs) hlast)
  have hsame := next_onTokens (hagree _ hlast)
  refine parse_eq_some_iff.2 ⟨rfl, last, hruns', ?_⟩
  show (m.onTokens tokens).Stops last t.steps limit fuel t.status
  generalize t.status = status at hstops ⊢
  cases hstops with
  | finished stop within => exact .finished (hsame.trans stop) within
  | gaveUp next limited used => exact .gaveUp (hsame.trans next) limited used

end Agree

end Machine

namespace Analysis

/-- The parser sees one token ahead and no more. On two inputs with the same first
    `p` tokens the steps at positions below `p` are the same, in the same order,
    whatever the limit is. If one parse stops with fewer than `p` tokens read, for
    any reason, the other stops after the same steps and with the same status. -/
theorem parse_of_same_beginning (text input other : String) (p : Nat)
    (hsame : (tokenize other).take p = (tokenize input).take p) (limit : Option Nat) (fuel : Nat)
    {t : Trace} (ht : (ofText text).parse input limit fuel = some t) :
    (∀ fuel' t', (ofText text).parse other limit fuel' = some t' →
      t'.steps.filter (·.position < p) = t.steps.filter (·.position < p)) ∧
    ((advances t.steps).length < p →
      (ofText text).parse other limit fuel = some { t with tokens := tokenize other }) := by
  have hagree : ∀ i < p, (tokenize other)[i]? = (tokenize input)[i]? := by
    intro i hi
    rw [← List.getElem?_take_of_lt hi, hsame, List.getElem?_take_of_lt hi]
  generalize ofText text = a at ht ⊢
  exact ⟨fun _ _ ht' => Machine.filter_steps_onTokens hagree ht ht',
    Machine.parse_onTokens hagree ht⟩

/-- In `S -> a S b |` the input `a b b` is rejected at its third token, so whatever
    stands behind it is not looked at. The input `a a b` goes another way behind
    its first token. The symbols are `S` (2), `a` (3) and `b` (4). -/
theorem parse_of_same_beginning_of_surplus :
    let a := ofText "S -> a S b |"
    let t : Trace :=
      { tokens := ["a", "b", "b", "$"]
        steps := [⟨[2, 1], 0, .expand 0⟩, ⟨[3, 2, 4, 1], 0, .advance 3⟩, ⟨[2, 4, 1], 1, .expand 1⟩,
          ⟨[4, 1], 1, .advance 4⟩]
        status := .finished (.rejected (.mismatch 1 "b")) }
    a.parse "a b b" none 4 = some t ∧
    ((tokenize "a b b a").take 3 = (tokenize "a b b").take 3 ∧ (advances t.steps).length < 3 ∧
      a.parse "a b b a" none 4 = some { t with tokens := ["a", "b", "b", "a", "$"] }) ∧
    ((tokenize "a a b").take 1 = (tokenize "a b b").take 1 ∧
      ∀ fuel' t', a.parse "a a b" none fuel' = some t' →
        t'.steps.filter (·.position < 1) = t.steps.take 2) := by
  intro a t
  have ht : a.parse "a b b" none 4 = some t := by decide
  have hthree : (tokenize "a b b a").take 3 = (tokenize "a b b").take 3 := by decide
  have hone : (tokenize "a a b").take 1 = (tokenize "a b b").take 1 := by decide
  have hread : (advances t.steps).length < 3 := by decide
  obtain ⟨-, hstopped⟩ := parse_of_same_beginning "S -> a S b |" "a b b" _ 3 hthree none 4 ht
  obtain ⟨hsteps, -⟩ := parse_of_same_beginning "S -> a S b |" "a b b" _ 1 hone none 4 ht
  exact ⟨ht, ⟨hthree, hread, hstopped hread⟩, hone, hsteps⟩

end Analysis

end Predictive
