import Predictive.Analysis
import Predictive.Proofs.Machine.Run

/-! # Limits

    A limit cuts the record of a parse short, and does nothing else.

    * Fuel and limits are done with first: a record is a run from the
      beginning that stops for one of two reasons (`Machine.Stops`,
      `Machine.parse_eq_some_iff`). The machine has a verdict, or it could go on
      and as many steps have been made as the limit allows.
    * A longer run passes through the configuration where the limit strikes,
      and could go on there (`Machine.Runs.exists_stop`). So under the smaller
      limit the machine gives up at this place, unless its verdict comes first
      (`Machine.exists_cut`).

    Main result: `Analysis.parse_truncated`.
-/

namespace Predictive

/-- What a limit leaves of a record that was made with more room. -/
structure Trace.CutAt (limit : Nat) (long short : Trace) : Prop where
  tokens : short.tokens = long.tokens
  /-- The steps that there is room for, and no others. -/
  steps : short.steps = long.steps.take (min limit long.steps.length)
  /-- A parse that is over within the limit has the same record. -/
  kept : (∃ verdict, long.status = .finished verdict) ∧ long.steps.length ≤ limit → short = long
  /-- Any other gives up, after just as many steps as the limit allows. -/
  gaveUp : ¬((∃ verdict, long.status = .finished verdict) ∧ long.steps.length ≤ limit) →
    short.steps.length = limit ∧ short.status = .gaveUp limit

namespace Machine

variable {m : Machine} {c c' last : Configuration} {action : Action} {steps : List Step}
variable {limit : Option Nat} {status : Status} {verdict : Verdict} {fuel fuel' n : Nat}
variable {t long short : Trace}

/-! ### Why a record stops -/

/-- Why a parse records no further step. Without a limit there must be enough
    fuel for a verdict. -/
inductive Stops (m : Machine) (last : Configuration) (steps : List Step) (limit : Option Nat)
    (fuel : Nat) : Status → Prop where
  | finished {verdict : Verdict} (stop : m.next last = .error verdict)
    (within : steps.length ≤ limit.getD fuel) : Stops m last steps limit fuel (.finished verdict)
  | gaveUp {n : Nat} {action : Action} (next : m.next last = .ok action) (limited : limit = some n)
    (used : steps.length = n) : Stops m last steps limit fuel (.gaveUp n)

/-- Without a verdict all the fuel is used, and the machine could go on. -/
theorem runs_run_of_none (h : (m.run fuel c).2 = none) : ∃ c' action,
    m.Runs c (m.run fuel c).1 c' ∧ m.next c' = .ok action ∧ (m.run fuel c).1.length = fuel := by
  induction fuel generalizing c with
  | zero =>
    cases hnext : m.next c with
    | error verdict =>
      rw [run_of_error hnext] at h
      cases h
    | ok action =>
      rw [run_zero_of_ok hnext]
      exact ⟨c, action, .nil c, hnext, rfl⟩
  | succ fuel ih =>
    cases hnext : m.next c with
    | error verdict =>
      rw [run_of_error hnext] at h
      cases h
    | ok action =>
      rw [run_succ_of_ok hnext] at h ⊢
      obtain ⟨c', last, hruns, hlast, hlength⟩ := ih h
      refine ⟨c', last, .cons hnext hruns, hlast, ?_⟩
      simp [hlength]

/-- The fuelled run makes at most as many steps as it has fuel. -/
theorem length_run_le (m : Machine) (fuel : Nat) (c : Configuration) :
    (m.run fuel c).1.length ≤ fuel := by
  obtain ⟨c', hruns, hverdict⟩ := runs_run m fuel c
  refine Nat.le_of_not_lt ?_
  intro hlt
  -- a longer run would have been cut
  have hlength := congrArg (·.1.length) (run_of_lt hruns hlt)
  simp only [List.length_take] at hlength
  omega

/-- A parse under a limit always has a record. -/
theorem parse_some_eq : m.parse (some n) fuel = some (m.parseWithin n) := rfl

theorem stops_of_parse (h : m.parse limit fuel = some t) :
    t.tokens = m.tokens ∧ ∃ last, m.Runs m.initial t.steps last ∧
      m.Stops last t.steps limit fuel t.status := by
  cases limit with
  | some n =>
    rw [parse_some_eq] at h
    obtain rfl := Option.some.inj h
    refine ⟨rfl, ?_⟩
    show ∃ last, m.Runs m.initial (m.run n m.initial).1 last ∧
      m.Stops last (m.run n m.initial).1 (some n) fuel
        (((m.run n m.initial).2.map Status.finished).getD (.gaveUp n))
    cases hverdict : (m.run n m.initial).2 with
    | some verdict =>
      obtain ⟨last, hruns, hstop⟩ := runs_run m n m.initial
      exact ⟨last, hruns, .finished (hstop verdict hverdict) (length_run_le m n _)⟩
    | none =>
      obtain ⟨last, action, hruns, hnext, hlength⟩ := runs_run_of_none hverdict
      exact ⟨last, hruns, .gaveUp hnext rfl hlength⟩
  | none =>
    obtain ⟨verdict, hverdict, rfl⟩ := Option.map_eq_some_iff.1 h
    obtain ⟨last, hruns, hstop⟩ := runs_run m fuel m.initial
    exact ⟨rfl, last, hruns, .finished (hstop verdict hverdict) (length_run_le m fuel _)⟩

theorem parse_of_stops (h : m.Runs m.initial steps last)
    (hstops : m.Stops last steps limit fuel status) :
    m.parse limit fuel = some ⟨m.tokens, steps, status⟩ := by
  cases hstops with
  | finished stop within =>
    cases limit with
    | some n => exact parse_some_of_le h stop within
    | none => exact parse_none_of_le h stop within
  | @gaveUp n action next limited used =>
    subst limited
    -- one more step would be too many
    let further : Step := ⟨last.stack, last.position, action⟩
    have hmore : m.Runs m.initial (steps ++ [further]) _ := h.append (.cons next (.nil _))
    have hlt : n < (steps ++ [further]).length := by simp [used]
    rw [parse_some_of_lt hmore hlt, ← used, List.take_left]

/-- A record of a parse is a run from the beginning that stops. -/
theorem parse_eq_some_iff : m.parse limit fuel = some t ↔
    t.tokens = m.tokens ∧ ∃ last, m.Runs m.initial t.steps last ∧
      m.Stops last t.steps limit fuel t.status := by
  constructor
  · exact stops_of_parse
  · intro h
    obtain ⟨htokens, last, hruns, hstops⟩ := h
    rw [parse_of_stops hruns hstops, ← htokens]

/-- More fuel does not change a record. -/
theorem parse_mono (h : m.parse limit fuel = some t) (hle : fuel ≤ fuel') :
    m.parse limit fuel' = some t := by
  obtain ⟨htokens, last, hruns, hstops⟩ := parse_eq_some_iff.1 h
  refine parse_eq_some_iff.2 ⟨htokens, last, hruns, ?_⟩
  cases hstatus : t.status with
  | finished verdict =>
    rw [hstatus] at hstops
    cases hstops with
    | finished stop within =>
      refine .finished stop (Nat.le_trans within ?_)
      cases limit with
      | some n => exact Nat.le_refl n
      | none => exact hle
  | gaveUp n =>
    rw [hstatus] at hstops
    cases hstops with
    | gaveUp next limited used => exact .gaveUp next limited used

/-! ### A smaller limit -/

/-- Where a run is left before its end, the machine could go on. -/
theorem Runs.exists_stop (h : m.Runs c steps c') (hn : n < steps.length) : ∃ last action,
    m.Runs c (steps.take n) last ∧ m.next last = .ok action := by
  obtain ⟨hbefore, hnext, -⟩ := h.visits (List.getElem?_eq_getElem hn)
  exact ⟨_, _, hbefore, hnext⟩

/-- A parse that is over within the limit is the same under the limit. -/
theorem parse_of_finished (h : m.parse limit fuel = some long)
    (hfinished : ∃ verdict, long.status = .finished verdict) (hle : long.steps.length ≤ n) :
    m.parse (some n) fuel' = some long := by
  obtain ⟨htokens, last, hruns, hstops⟩ := parse_eq_some_iff.1 h
  obtain ⟨verdict, hverdict⟩ := hfinished
  refine parse_eq_some_iff.2 ⟨htokens, last, hruns, ?_⟩
  rw [hverdict] at hstops ⊢
  cases hstops with
  | finished stop within => exact .finished stop hle

/-- Any other parse is given up under the limit, after its first steps. -/
theorem parse_of_not_finished (h : m.parse limit fuel = some long) (hlimit : ∀ k ∈ limit, n ≤ k)
    (hlong : ¬((∃ verdict, long.status = .finished verdict) ∧ long.steps.length ≤ n)) :
    n ≤ long.steps.length ∧
      m.parse (some n) fuel' = some ⟨long.tokens, long.steps.take n, .gaveUp n⟩ := by
  obtain ⟨htokens, last, hruns, hstops⟩ := parse_eq_some_iff.1 h
  by_cases hlt : n < long.steps.length
  · obtain ⟨stop, action, hfirst, hnext⟩ := hruns.exists_stop hlt
    have hlength : (long.steps.take n).length = n := by
      rw [List.length_take]
      omega
    exact ⟨Nat.le_of_lt hlt, parse_eq_some_iff.2 ⟨htokens, stop, hfirst, .gaveUp hnext rfl hlength⟩⟩
  · -- then the longer parse has been given up too, after just as many steps
    cases hstatus : long.status with
    | finished verdict => exact absurd ⟨⟨verdict, hstatus⟩, Nat.le_of_not_lt hlt⟩ hlong
    | gaveUp k =>
      rw [hstatus] at hstops
      cases hstops with
      | gaveUp next limited used =>
        have hk : n ≤ k := hlimit k limited
        have hn : long.steps.length = n := by omega
        refine ⟨Nat.le_of_eq hn.symm, parse_eq_some_iff.2 ⟨htokens, last, ?_, ?_⟩⟩
        · rw [List.take_of_length_le (Nat.le_of_eq hn)]
          exact hruns
        · rw [List.take_of_length_le (Nat.le_of_eq hn)]
          exact .gaveUp next rfl hn

/-- The record under the smaller limit is cut from the longer one. -/
theorem exists_cut (h : m.parse limit fuel = some long) (hlimit : ∀ k ∈ limit, n ≤ k) :
    ∃ short, m.parse (some n) fuel' = some short ∧ long.CutAt n short := by
  by_cases hlong : (∃ verdict, long.status = .finished verdict) ∧ long.steps.length ≤ n
  · -- the verdict comes first
    have hsteps : long.steps = long.steps.take (min n long.steps.length) := by
      rw [Nat.min_eq_right hlong.2, List.take_length]
    refine ⟨long, parse_of_finished h hlong.1 hlong.2, ?_⟩
    exact { tokens := rfl, steps := hsteps, kept := fun _ => rfl, gaveUp := absurd hlong }
  · -- the limit strikes first
    obtain ⟨hle, hshort⟩ := parse_of_not_finished h hlimit hlong
    have hsteps : long.steps.take n = long.steps.take (min n long.steps.length) := by
      rw [Nat.min_eq_left hle]
    have hlength : (long.steps.take n).length = n := by
      rw [List.length_take, Nat.min_eq_left hle]
    refine ⟨_, hshort, ?_⟩
    exact { tokens := rfl, steps := hsteps, kept := fun hover => absurd hover hlong,
            gaveUp := fun _ => ⟨hlength, rfl⟩ }

end Machine

namespace Analysis

/-- A limit only truncates. A parse under the limit `n` has a record, and this
    record is cut from every record of the same parse that is made with at least
    as much room: under a larger limit, or without any if such a parse is over. -/
theorem parse_truncated (text input : String) (n fuel : Nat) :
    ∃ short, (ofText text).parse input (some n) fuel = some short ∧
      ∀ limit fuel' long, (∀ k ∈ limit, n ≤ k) →
        (ofText text).parse input limit fuel' = some long → long.CutAt n short := by
  refine ⟨((ofText text).machine input).parseWithin n, rfl, ?_⟩
  intro limit fuel' long hlimit hlong
  obtain ⟨short, hshort, hcut⟩ : ∃ short,
      ((ofText text).machine input).parse (some n) fuel = some short ∧ long.CutAt n short :=
    Machine.exists_cut hlong hlimit
  rw [Machine.parse_some_eq] at hshort
  rw [Option.some.inj hshort]
  exact hcut

/-- In `S -> a S |` the input `a a` is accepted after five steps. A limit of three
    leaves the first three of them, a limit of six leaves the whole record. The
    symbols are `S` (2) and `a` (3). -/
theorem parse_truncated_of_repetition :
    let a := ofText "S -> a S |"
    let long : Trace :=
      { tokens := ["a", "a", "$"]
        steps := [⟨[2, 1], 0, .expand 0⟩, ⟨[3, 2, 1], 0, .advance 3⟩, ⟨[2, 1], 1, .expand 0⟩,
          ⟨[3, 2, 1], 1, .advance 3⟩, ⟨[2, 1], 2, .expand 1⟩]
        status := .finished .accepted }
    let short : Trace := { tokens := long.tokens, steps := long.steps.take 3, status := .gaveUp 3 }
    ((∀ k ∈ some 7, 3 ≤ k) ∧ a.parse "a a" (some 7) 0 = some long ∧
      a.parse "a a" (some 3) 0 = some short ∧ long.CutAt 3 short) ∧
    ((∀ k ∈ (none : Option Nat), 6 ≤ k) ∧ a.parse "a a" none 5 = some long ∧
      a.parse "a a" (some 6) 0 = some long ∧ long.CutAt 6 long) := by
  intro a long short
  have hseven : a.parse "a a" (some 7) 0 = some long := by decide
  have hthree : a.parse "a a" (some 3) 0 = some short := by decide
  have hall : a.parse "a a" none 5 = some long := by decide
  have hsix : a.parse "a a" (some 6) 0 = some long := by decide
  have hle : ∀ k ∈ some 7, 3 ≤ k := by decide
  have hnone : ∀ k ∈ (none : Option Nat), 6 ≤ k := by decide
  obtain ⟨cut, hcut, hfirst⟩ := parse_truncated "S -> a S |" "a a" 3 0
  obtain ⟨kept, hkept, hsecond⟩ := parse_truncated "S -> a S |" "a a" 6 0
  obtain rfl : short = cut := Option.some.inj (hthree.symm.trans hcut)
  obtain rfl : long = kept := Option.some.inj (hsix.symm.trans hkept)
  exact ⟨⟨hle, hseven, hthree, hfirst _ _ _ hle hseven⟩, hnone, hall, hsix,
    hsecond _ _ _ hnone hall⟩

end Analysis

end Predictive
