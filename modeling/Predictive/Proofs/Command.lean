import Predictive.Command.Run
import Predictive.Proofs.Machine.Lookahead

/-! # Runs for several outputs

    A run makes one parse for all its outputs, and makes it only if one of them
    needs it. The parse itself does not depend on the outputs, and an output that
    needs no parse is the same with one and without (`text?_eq`). So everything
    that a run prints can be made from any record that is enough for its outputs
    (`stdout_of_ends`); one that is enough for two lists of outputs together is
    enough for each of them. What a parse comes to is looked at when everything
    is printed (`failure_isSome_iff`).

    Main result: `Options.outputs_compose`.
-/

namespace Predictive.Command

variable {raw : Except ReadFailure ByteArray} {bytes : ByteArray} {text : String}

/-! ### Grammars that can be read -/

theorem decode_eq_ok_iff : decode bytes = .ok text ↔ bytes = text.toUTF8 := by
  unfold decode String.fromUTF8?
  constructor
  · intro h
    split at h
    · next other hother =>
      obtain rfl := Except.ok.inj h
      split at hother
      · obtain rfl := Option.some.inj hother
        rfl
      · cases hother
    · cases h
  · rintro rfl
    rw [String.toUTF8_eq_toByteArray, dif_pos text.isValidUTF8]
    rfl

theorem decoded_eq_ok_iff : raw.bind decode = .ok text ↔ raw = .ok text.toUTF8 := by
  cases raw with
  | error reason => exact iff_of_false nofun nofun
  | ok bytes => exact decode_eq_ok_iff.trans ⟨congrArg Except.ok, Except.ok.inj⟩

/-! ### Outputs and the parse -/

theorem any_needsTrace_iff {outputs : List Output} :
    outputs.any Output.needsTrace ↔ Output.trace ∈ outputs ∨ Output.tree ∈ outputs := by
  rw [List.any_eq_true]
  constructor
  · rintro ⟨output, hmem, hneeds⟩
    cases output with
    | trace => exact .inl hmem
    | tree => exact .inr hmem
    | info | table | recovery | conflicts => cases hneeds
  · rintro (h | h)
    · exact ⟨_, h, rfl⟩
    · exact ⟨_, h, rfl⟩

/-- An output that needs no parse is the same with one and without. -/
theorem Output.text?_eq {output : Output} (h : output.needsTrace = false) (f : Format)
    (a : Analysis) (shown shown' : Option Trace) :
    output.text? f a shown = output.text? f a shown' := by
  cases output with
  | trace | tree => cases h
  | info | table | recovery | conflicts => rfl

theorem Output.exists_text (output : Output) (f : Format) (a : Analysis) {shown : Option Trace}
    (h : output.needsTrace → shown.isSome) : ∃ text, output.text? f a shown = some text := by
  cases output with
  | trace | tree =>
    obtain ⟨t, rfl⟩ := Option.isSome_iff_exists.1 (h rfl)
    exact ⟨_, rfl⟩
  | info | table | recovery | conflicts => exact ⟨_, rfl⟩

namespace Options

variable {o : Options} {a : Analysis} {source : Except ReadFailure String}
variable {outcome outcome' : Outcome} {shown : Option Trace} {xs ys : List Output}

/-- The run ends with this outcome. -/
def Ends (o : Options) (source : Except ReadFailure String) (outcome : Outcome) : Prop :=
  ∃ fuel, o.run? source fuel = some outcome

/-- The parse ends with this record. -/
def Parses (o : Options) (a : Analysis) (t : Trace) : Prop :=
  ∃ fuel, a.parse o.input o.maxSteps fuel = some t

/-- The parse gives up at its limit. -/
def GivesUp (o : Options) (a : Analysis) : Prop :=
  ∃ t limit, o.Parses a t ∧ t.status = .gaveUp limit

/-- The record is that of the parse, and there is one if an output needs it. -/
structure Serves (o : Options) (a : Analysis) (shown : Option Trace) : Prop where
  parses : ∀ t ∈ shown, o.Parses a t
  enough : o.outputs.any Output.needsTrace → shown.isSome

/-- The outputs for which a run was asked, all of them in order. -/
def Prints (o : Options) (a : Analysis) (stdout : String) : Prop :=
  ∃ (shown : Option Trace) (texts : List String), o.Serves a shown ∧
    o.outputs.map (·.text? o.format a shown) = texts.map some ∧
    stdout = String.join (texts.map (· ++ "\n"))

theorem Parses.unique {t t' : Trace} (h : o.Parses a t) (h' : o.Parses a t') : t = t' := by
  obtain ⟨fuel, h⟩ := h
  obtain ⟨fuel', h'⟩ := h'
  exact Machine.parse_unique h h'

/-- A run on a grammar that cannot be read. -/
theorem ends_error_iff {reason : ReadFailure} : o.Ends (.error reason) outcome ↔
    outcome = { stdout := "", failure := some (.unreadable reason), records := [] } := by
  constructor
  · rintro ⟨fuel, h⟩
    exact (Option.some.inj h).symm
  · rintro rfl
    exact ⟨0, rfl⟩

/-- A run on a grammar text: with its parse if an output needs it, else without. -/
theorem ends_ok_iff : o.Ends (.ok text) outcome ↔
    ∃ shown, o.Serves (.ofText text) shown ∧
      (shown.isSome → o.outputs.any Output.needsTrace) ∧
      outcome = o.outcome (.ofText text) shown := by
  cases hneeds : o.outputs.any Output.needsTrace with
  | true =>
    simp only [Ends, run?, hneeds, if_true, Option.map_eq_some_iff]
    constructor
    · rintro ⟨fuel, t, ht, rfl⟩
      refine ⟨some t, ⟨?_, fun _ => rfl⟩, fun _ => trivial, rfl⟩
      rintro t' ⟨⟩
      exact ⟨fuel, ht⟩
    · rintro ⟨shown, hserves, -, rfl⟩
      obtain ⟨t, rfl⟩ := Option.isSome_iff_exists.1 (hserves.enough hneeds)
      obtain ⟨fuel, ht⟩ := hserves.parses t rfl
      exact ⟨fuel, t, ht, rfl⟩
  | false =>
    simp only [Ends, run?, hneeds, Bool.false_eq_true, if_false, Option.some.injEq]
    constructor
    · rintro ⟨-, rfl⟩
      exact ⟨none, ⟨by simp, by simp [hneeds]⟩, by simp, rfl⟩
    · rintro ⟨shown, -, hnone, rfl⟩
      cases shown with
      | none => exact ⟨0, rfl⟩
      | some t => exact absurd rfl hnone

/-- A run ends just if there is a record that is enough for its outputs. -/
theorem exists_ends_ok_iff : (∃ outcome, o.Ends (.ok text) outcome) ↔
    ∃ shown, o.Serves (.ofText text) shown := by
  constructor
  · rintro ⟨outcome, h⟩
    obtain ⟨shown, hserves, -⟩ := ends_ok_iff.1 h
    exact ⟨shown, hserves⟩
  · rintro ⟨shown, hserves⟩
    by_cases hneeds : o.outputs.any Output.needsTrace
    · exact ⟨_, ends_ok_iff.2 ⟨shown, hserves, fun _ => hneeds, rfl⟩⟩
    · exact ⟨_, ends_ok_iff.2 ⟨none, ⟨by simp, fun h => absurd h hneeds⟩, by simp, rfl⟩⟩

/-! ### What is printed -/

theorem printed_append (o : Options) (a : Analysis) (shown : Option Trace) (xs ys : List Output) :
    { o with outputs := xs ++ ys }.printed a shown
      = { o with outputs := xs }.printed a shown ++ { o with outputs := ys }.printed a shown := by
  unfold printed
  rw [List.filterMap_append, List.map_append, String.join_append]

/-- Every output has a text in a record that is enough. -/
theorem Serves.prints (h : o.Serves a shown) : o.Prints a (o.printed a shown) := by
  refine ⟨shown, o.outputs.filterMap (·.text? o.format a shown), h, ?_, rfl⟩
  rw [List.map_filterMap_some_eq_filter_map_isSome, eq_comm, List.filter_eq_self]
  intro text hmem
  obtain ⟨output, houtput, rfl⟩ := List.mem_map.1 hmem
  apply Option.isSome_iff_exists.2
  apply Output.exists_text
  intro hneeds
  exact h.enough (List.any_eq_true.2 ⟨output, houtput, hneeds⟩)

/-- Records that are enough give the same texts. -/
theorem Serves.printed_eq {shown' : Option Trace} (h : o.Serves a shown) (h' : o.Serves a shown') :
    o.printed a shown = o.printed a shown' := by
  by_cases hneeds : o.outputs.any Output.needsTrace
  · obtain ⟨t, rfl⟩ := Option.isSome_iff_exists.1 (h.enough hneeds)
    obtain ⟨t', rfl⟩ := Option.isSome_iff_exists.1 (h'.enough hneeds)
    rw [(h.parses t rfl).unique (h'.parses t' rfl)]
  · -- no output looks at the record
    have htexts : o.outputs.map (·.text? o.format a shown)
        = o.outputs.map (·.text? o.format a shown') := by
      apply List.map_congr_left
      intro output houtput
      apply Output.text?_eq
      simp only [List.any_eq_true, not_exists, not_and, Bool.not_eq_true] at hneeds
      exact hneeds output houtput
    have hprinted := congrArg (List.filterMap id) htexts
    rw [List.filterMap_map, List.filterMap_map] at hprinted
    unfold printed
    exact congrArg (fun texts => String.join (texts.map (· ++ "\n"))) hprinted

/-- A run on a text prints all its outputs, from whatever record is enough. -/
theorem stdout_of_ends (h : o.Ends (.ok text) outcome) (hserves : o.Serves (.ofText text) shown) :
    outcome.stdout = o.printed (.ofText text) shown := by
  obtain ⟨shown', hserves', -, rfl⟩ := ends_ok_iff.1 h
  exact hserves'.printed_eq hserves

/-! ### Failures -/

theorem exitCode_ne_zero_iff : outcome.exitCode ≠ 0 ↔ outcome.failure.isSome := by
  unfold Outcome.exitCode
  split <;> simp_all

theorem failureOf?_isSome_iff {t : Trace} :
    (failureOf? t).isSome ↔ ∃ limit, t.status = .gaveUp limit := by
  unfold failureOf?
  cases t.status with
  | gaveUp limit => exact iff_of_true rfl ⟨limit, rfl⟩
  | finished verdict => exact iff_of_false nofun nofun

/-- A run on a text fails if it made a parse and the parse gave up. -/
theorem failure_isSome_iff (h : o.Ends (.ok text) outcome) :
    outcome.failure.isSome ↔
      o.outputs.any Output.needsTrace ∧ o.GivesUp (.ofText text) := by
  obtain ⟨shown, hserves, hneeds, rfl⟩ := ends_ok_iff.1 h
  constructor
  · intro hfails
    obtain ⟨failure, hfailure⟩ := Option.isSome_iff_exists.1 hfails
    obtain ⟨t, rfl, ht⟩ := Option.bind_eq_some_iff.1 hfailure
    obtain ⟨limit, hlimit⟩ := failureOf?_isSome_iff.1 (Option.isSome_iff_exists.2 ⟨failure, ht⟩)
    exact ⟨hneeds rfl, t, limit, hserves.parses t rfl, hlimit⟩
  · rintro ⟨hany, t, limit, ht, hlimit⟩
    obtain ⟨t', rfl⟩ := Option.isSome_iff_exists.1 (hserves.enough hany)
    rw [← ht.unique (hserves.parses t' rfl)]
    exact failureOf?_isSome_iff.2 ⟨limit, hlimit⟩

/-! ### One list of outputs after another -/

theorem serves_append_iff : { o with outputs := xs ++ ys }.Serves a shown ↔
    { o with outputs := xs }.Serves a shown ∧ { o with outputs := ys }.Serves a shown := by
  constructor
  · rintro ⟨hparses, henough⟩
    simp only [List.any_append, Bool.or_eq_true] at henough
    exact ⟨⟨hparses, fun h => henough (.inl h)⟩, ⟨hparses, fun h => henough (.inr h)⟩⟩
  · rintro ⟨⟨hparses, hleft⟩, ⟨-, hright⟩⟩
    refine ⟨hparses, ?_⟩
    simp only [List.any_append, Bool.or_eq_true]
    exact fun h => h.elim hleft hright

/-- A record that is enough for the one list or for the other is so for both. -/
theorem exists_serves_append_iff : (∃ shown, { o with outputs := xs ++ ys }.Serves a shown) ↔
    (∃ shown, { o with outputs := xs }.Serves a shown) ∧
      ∃ shown, { o with outputs := ys }.Serves a shown := by
  constructor
  · rintro ⟨shown, h⟩
    obtain ⟨hleft, hright⟩ := serves_append_iff.1 h
    exact ⟨⟨shown, hleft⟩, ⟨shown, hright⟩⟩
  · rintro ⟨⟨shown, hleft⟩, ⟨shown', hright⟩⟩
    -- without a need of its own the first list is served by whatever serves the second
    by_cases hneeds : xs.any Output.needsTrace
    · refine ⟨shown, serves_append_iff.2 ⟨hleft, hleft.parses, fun _ => ?_⟩⟩
      exact hleft.enough hneeds
    · refine ⟨shown', serves_append_iff.2 ⟨⟨hright.parses, fun h => ?_⟩, hright⟩⟩
      exact absurd h hneeds

/-- The run for both lists ends just if the runs for the two lists do. -/
theorem exists_ends_append_iff : (∃ whole, { o with outputs := xs ++ ys }.Ends source whole) ↔
    (∃ left, { o with outputs := xs }.Ends source left) ∧
      ∃ right, { o with outputs := ys }.Ends source right := by
  cases source with
  | error reason =>
    simp only [ends_error_iff, exists_eq, and_self]
  | ok text =>
    simp only [exists_ends_ok_iff, exists_serves_append_iff]

variable {left right whole : Outcome}

/-- The run for both lists prints what the runs for the two lists print. -/
theorem stdout_append (hleft : { o with outputs := xs }.Ends source left)
    (hright : { o with outputs := ys }.Ends source right)
    (hwhole : { o with outputs := xs ++ ys }.Ends source whole) :
    whole.stdout = left.stdout ++ right.stdout := by
  cases source with
  | error reason =>
    rw [ends_error_iff.1 hleft, ends_error_iff.1 hright, ends_error_iff.1 hwhole]
    rfl
  | ok text =>
    obtain ⟨shown, hserves⟩ := exists_ends_ok_iff.1 ⟨whole, hwhole⟩
    obtain ⟨hserves_left, hserves_right⟩ := serves_append_iff.1 hserves
    rw [stdout_of_ends hwhole hserves, stdout_of_ends hleft hserves_left,
      stdout_of_ends hright hserves_right, printed_append]

/-- The run for both lists fails if one of the runs for the two lists does. -/
theorem failure_append (hleft : { o with outputs := xs }.Ends source left)
    (hright : { o with outputs := ys }.Ends source right)
    (hwhole : { o with outputs := xs ++ ys }.Ends source whole) :
    whole.failure.isSome ↔ left.failure.isSome ∨ right.failure.isSome := by
  cases source with
  | error reason =>
    rw [ends_error_iff.1 hleft, ends_error_iff.1 hright, ends_error_iff.1 hwhole]
    simp
  | ok text =>
    rw [failure_isSome_iff hwhole, failure_isSome_iff hleft, failure_isSome_iff hright,
      List.any_append, Bool.or_eq_true]
    exact or_and_right

/-- Outputs compose. The run for one list of outputs after another ends just if
    the runs for the two lists do; it prints what they print, the one after the
    other, and fails if one of them fails. A run fails just if the grammar is not
    a text in UTF-8, and then nothing is printed, or if the parse gives up that a
    trace or a tree is asked of, and then all outputs are printed before. -/
theorem outputs_compose (o : Options) (raw : Except ReadFailure ByteArray) (xs ys : List Output) :
    ((∃ whole, { o with outputs := xs ++ ys }.Ends (raw.bind decode) whole) ↔
      (∃ left, { o with outputs := xs }.Ends (raw.bind decode) left) ∧
        ∃ right, { o with outputs := ys }.Ends (raw.bind decode) right) ∧
    (∀ left right whole, { o with outputs := xs }.Ends (raw.bind decode) left →
      { o with outputs := ys }.Ends (raw.bind decode) right →
      { o with outputs := xs ++ ys }.Ends (raw.bind decode) whole →
      whole.stdout = left.stdout ++ right.stdout ∧
        (whole.exitCode ≠ 0 ↔ left.exitCode ≠ 0 ∨ right.exitCode ≠ 0)) ∧
    ∀ outcome, o.Ends (raw.bind decode) outcome →
      (outcome.exitCode ≠ 0 ↔ (¬∃ text : String, raw = .ok text.toUTF8) ∨
        (Output.trace ∈ o.outputs ∨ Output.tree ∈ o.outputs) ∧
          ∃ text : String, raw = .ok text.toUTF8 ∧ o.GivesUp (.ofText text)) ∧
      ((¬∃ text : String, raw = .ok text.toUTF8) → outcome.stdout = "") ∧
      ∀ text : String, raw = .ok text.toUTF8 → o.Prints (.ofText text) outcome.stdout := by
  simp only [exitCode_ne_zero_iff, ← any_needsTrace_iff, ← decoded_eq_ok_iff]
  generalize raw.bind decode = source
  refine ⟨exists_ends_append_iff, ?_, ?_⟩
  · intro left right whole hleft hright hwhole
    exact ⟨stdout_append hleft hright hwhole, failure_append hleft hright hwhole⟩
  · intro outcome hends
    cases source with
    | error reason =>
      rw [ends_error_iff.1 hends]
      simp
    | ok text =>
      simp only [Except.ok.injEq, exists_eq', not_true_eq_false, false_or, exists_eq_left',
        false_implies, true_and, forall_eq']
      refine ⟨failure_isSome_iff hends, ?_⟩
      obtain ⟨shown, hserves⟩ := exists_ends_ok_iff.1 ⟨outcome, hends⟩
      rw [stdout_of_ends hends hserves]
      exact hserves.prints

/-- The table needs no parse. The trace and the tree need one, which gives up after
    a step: the step is printed, and there is no tree. -/
theorem outputs_compose_of_limit :
    let o : Options := { outputs := [.table, .trace, .tree], grammar := none, input := "a",
                         format := .plain, maxSteps := some 1, verbosity := 0 }
    let source := Except.bind (.ok "S -> a S |".toUTF8) decode
    let table := "  |     a |   $\nS | S→a S | S→ε\n"
    let trace := "Stack | Input |     Rule\n  $ S |   a $ | S -> a S\n\n" ++
      "Rejected (gave up after 1 steps)\n"
    ∃ left right whole, { o with outputs := [.table] }.Ends source left ∧
      { o with outputs := [.trace, .tree] }.Ends source right ∧ o.Ends source whole ∧
      left.stdout = table ∧ left.exitCode = 0 ∧
      right.stdout = trace ++ "null\n" ∧ right.exitCode = 1 ∧
      whole.stdout = table ++ trace ++ "null\n" ∧ whole.exitCode ≠ 0 := by
  intro o source table trace
  let a := Analysis.ofText "S -> a S |"
  let t := (a.machine "a").parseWithin 1
  let left := { o with outputs := [.table] }.outcome a none
  let right := { o with outputs := [.trace, .tree] }.outcome a (some t)
  have hsource : source = .ok "S -> a S |" := decoded_eq_ok_iff.2 rfl
  have hleft : { o with outputs := [.table] }.Ends source left := by
    rw [hsource]
    exact ⟨0, rfl⟩
  have hright : { o with outputs := [.trace, .tree] }.Ends source right := by
    rw [hsource]
    exact ⟨0, rfl⟩
  obtain ⟨hends, happend, -⟩ :=
    outputs_compose o (.ok "S -> a S |".toUTF8) [.table] [.trace, .tree]
  obtain ⟨whole, hwhole⟩ := hends.2 ⟨⟨left, hleft⟩, ⟨right, hright⟩⟩
  obtain ⟨hstdout, hfails⟩ := happend left right whole hleft hright hwhole
  have hleft_stdout : left.stdout = table := by decide +kernel
  have hright_stdout : right.stdout = trace ++ "null\n" := by decide +kernel
  have hright_code : right.exitCode = 1 := by decide +kernel
  refine ⟨left, right, whole, hleft, hright, hwhole, hleft_stdout, rfl, hright_stdout,
    hright_code, ?_, hfails.2 (.inr ?_)⟩
  · rw [hstdout, hleft_stdout, hright_stdout]
    exact String.append_assoc.symm
  · rw [hright_code]
    decide

end Options

end Predictive.Command
