import Mathlib.Data.Fintype.EquivFin
import Mathlib.Order.RelClasses
import Predictive.Proofs.Machine.Termination

/-! # Without left recursion every parse ends

    A non-terminal leads to a symbol if it becomes, in one or more
    replacements, a form that begins with it (`Grammar.LeadsTo`). A non-terminal
    that leads to itself is left-recursive. Leading is transitive, and there are
    finitely many symbols. So without left recursion something can be proved of
    a non-terminal as soon as it follows from the non-terminals that it leads to
    (`Grammar.leadsTo_induction`).

    With conflicts the machine may take a rule that leads nowhere, so no
    derivation shows what it does. Whatever rule it takes, the non-terminals that
    come to the top before a token is read are those that the replaced one leads
    to, and if all of them go away, the replaced one vanishes and the stack below
    it is left (`Machine.finishes_of_cons`).

    Main result: `Analysis.parse_finishes_of_not_leftRecursive`.
-/

namespace Predictive

namespace Grammar

variable {g : Grammar} {x y z : Symbol} {a b : List Symbol}

/-- In one or more replacements `x` becomes a form that begins with `y`. -/
def LeadsTo (g : Grammar) (x y : Symbol) : Prop :=
  ∃ form rest, g.Yields [x] form ∧ g.Derives form (y :: rest)

/-- The symbol leads to itself. -/
def LeftRecursive (g : Grammar) (x : Symbol) : Prop := g.LeadsTo x x

/-- What begins to be replaced is the left side of a rule. -/
theorem Yields.exists_rule (h : g.Yields [x] a) : ∃ r ∈ g.rules, r.left = x ∧ r.right = a := by
  generalize hform : [x] = form at h
  cases h with
  | @replace before after r hr =>
    cases before with
    | nil =>
      obtain ⟨rfl, rfl⟩ := List.cons.inj hform
      exact ⟨r, hr, rfl, by simp⟩
    | cons w before => simp at hform

theorem LeadsTo.trans (hxy : g.LeadsTo x y) (hyz : g.LeadsTo y z) : g.LeadsTo x z := by
  obtain ⟨form, rest, hfirst, hform⟩ := hxy
  obtain ⟨form', rest', hfirst', hform'⟩ := hyz
  have hlater : g.Derives (y :: rest) (z :: rest' ++ rest) :=
    (Derives.head hfirst' hform').append (.refl rest)
  exact ⟨form, rest' ++ rest, hfirst, hform.trans hlater⟩

/-- A rule leads to each symbol of its right side that only vanishing symbols
    stand before. -/
theorem LeadsTo.of_rule {r : Rule} (hr : r ∈ g.rules) (hright : r.right = a ++ y :: b)
    (ha : g.Derives a []) : g.LeadsTo r.left y := by
  have hfirst : g.Yields ([] ++ r.left :: []) ([] ++ r.right ++ []) := .replace [] [] hr
  rw [List.append_nil, List.nil_append] at hfirst
  refine ⟨r.right, b, hfirst, ?_⟩
  rw [hright]
  exact ha.append (.refl (y :: b))

/-- There is no left recursion where no right side begins with a non-terminal. -/
theorem not_leftRecursive_of_head? (hg : g.WellFormed)
    (hfront : ∀ r ∈ g.rules, ∀ y, r.right.head? = some y → g.kind y ≠ .nonTerminal)
    (hx : g.kind x = .nonTerminal) : ¬g.LeftRecursive x := by
  rintro ⟨form, rest, hfirst, hform⟩
  obtain ⟨r, hr, -, rfl⟩ := hfirst.exists_rule
  obtain ⟨is, rest', hleftmost⟩ := hform.leftmost_head hg
  cases hright : r.right with
  | nil =>
    obtain ⟨-, hnil⟩ := hleftmost.of_nil hright
    cases hnil
  | cons y ys =>
    -- what stands in front stays there
    have hy := hfront r hr y (by rw [hright]; rfl)
    rw [hright] at hleftmost
    obtain ⟨b, hb, -⟩ := hleftmost.behind hg hy
    obtain ⟨rfl, -⟩ := List.cons.inj hb
    exact hy hx

/-- Without left recursion, what passes from the non-terminals that `x` leads to
    on to `x` holds for all non-terminals. -/
theorem leadsTo_induction (hg : g.WellFormed)
    (hleft : ∀ x ∈ g.nonTerminals, ¬g.LeftRecursive x) {motive : Symbol → Prop}
    (step : ∀ x, g.kind x = .nonTerminal →
      (∀ y, g.kind y = .nonTerminal → g.LeadsTo x y → motive y) → motive x) :
    ∀ x, g.kind x = .nonTerminal → motive x := by
  -- leading the other way is a strict order on finitely many symbols
  let led : Fin g.size → Fin g.size → Prop := fun y x => g.LeadsTo x y
  have htrans : IsTrans (Fin g.size) led := ⟨fun _ _ _ hyx hzy => hzy.trans hyx⟩
  have hirrefl : Std.Irrefl led := by
    refine ⟨fun x h => ?_⟩
    obtain ⟨form, rest, hfirst, hform⟩ := h
    obtain ⟨r, hr, heq, -⟩ := hfirst.exists_rule
    have hnon : x.val ∈ g.nonTerminals := by
      rw [mem_nonTerminals, ← heq]
      exact hg.kind_left hr
    exact hleft x hnon ⟨form, rest, hfirst, hform⟩
  have hwf : WellFounded led := Finite.wellFounded_of_trans_of_irrefl led
  have hall : ∀ i : Fin g.size, g.kind i = .nonTerminal → motive i := by
    intro i
    induction i using hwf.induction with
    | h i ih =>
      intro hi
      refine step i hi fun y hy hlead => ?_
      exact ih ⟨y, lt_size_of_nonTerminal hy⟩ hlead hy
  intro x hx
  exact hall ⟨x, lt_size_of_nonTerminal hx⟩ hx

end Grammar

namespace Machine

variable {m : Machine}

/-- Beyond the tokens the parse ends. -/
theorem finishes_of_length_le {position : Nat} (h : m.tokens.length ≤ position)
    (stack : List Symbol) : m.Finishes ⟨stack, position⟩ := by
  cases hnext : m.next ⟨stack, position⟩ with
  | error verdict => exact .of_error hnext
  | ok action =>
    obtain ⟨-, -, token, -, htoken, -⟩ := next_eq_ok_iff.1 hnext
    have hlt : position < m.tokens.length := (List.getElem?_eq_some_iff.1 htoken).1
    omega

section Position

variable (hm : m.Standard) (hleft : ∀ x ∈ m.grammar.nonTerminals, ¬m.grammar.LeftRecursive x)
variable {position : Nat} (hafter : ∀ stack, m.Finishes ⟨stack, position + 1⟩)

include hm hleft hafter

/-- With a non-terminal on top the parse ends, if it ends after the next token
    and, where the non-terminal can vanish, with the stack below it. -/
theorem finishes_of_cons : ∀ x, m.grammar.kind x = .nonTerminal →
    ∀ below, (m.grammar.Derives [x] [] → m.Finishes ⟨below, position⟩) →
      m.Finishes ⟨x :: below, position⟩ := by
  refine Grammar.leadsTo_induction hm.wellFormed hleft ?_
  intro x hx ih below hbelow
  cases hnext : m.next ⟨x :: below, position⟩ with
  | error verdict => exact .of_error hnext
  | ok action =>
    obtain ⟨top, under, token, hstack, -, -, turn⟩ := next_eq_ok_iff.1 hnext
    obtain ⟨rfl, rfl⟩ := List.cons.inj hstack
    refine .of_ok hnext ?_
    cases turn with
    | advance kind =>
      rw [hx] at kind
      rcases kind with kind | kind <;> cases kind
    | expand _ predicted =>
      obtain ⟨r, hr, rfl⟩ := hm.rule_of_ruleFor? predicted
      have hmem := List.mem_of_getElem? hr
      rw [apply_expand hr]
      -- symbol by symbol along the right side: those before have vanished
      have hrest : ∀ rest front, r.right = front ++ rest → m.grammar.Derives front [] →
          m.Finishes ⟨rest ++ below, position⟩ := by
        intro rest
        induction rest with
        | nil =>
          intro front hright hfront
          rw [List.append_nil] at hright
          rw [← hright] at hfront
          exact hbelow ((Grammar.Derives.rule hmem).trans hfront)
        | cons y rest ihRest =>
          intro front hright hfront
          by_cases hy : m.grammar.kind y = .nonTerminal
          · have hlead := Grammar.LeadsTo.of_rule hmem hright hfront
            refine ih y hy hlead (rest ++ below) fun hvanish => ?_
            refine ihRest (front ++ [y]) (by rw [hright]; simp) ?_
            exact hfront.append hvanish
          · exact finishes_of_kind_ne hy hafter (rest ++ below)
      exact hrest r.right [] rfl (.refl [])

end Position

/-- Without left recursion the machine comes to an end on any stack at any place
    of the input. -/
theorem finishes_of_not_leftRecursive (hm : m.Standard)
    (hleft : ∀ x ∈ m.grammar.nonTerminals, ¬m.grammar.LeftRecursive x) (stack : List Symbol)
    (position : Nat) : m.Finishes ⟨stack, position⟩ := by
  -- first by the rest of the input, then by the stack
  generalize hn : m.tokens.length - position = n
  induction n generalizing stack position with
  | zero => exact finishes_of_length_le (by omega) stack
  | succ n ihInput =>
    have hafter : ∀ stack, m.Finishes ⟨stack, position + 1⟩ :=
      fun stack => ihInput stack (position + 1) (by omega)
    induction stack with
    | nil =>
      have hnext : m.next ⟨[], position⟩ = .error (.rejected (.unexpected Symbol.endMark)) := rfl
      exact .of_error hnext
    | cons x below ihStack =>
      by_cases hx : m.grammar.kind x = .nonTerminal
      · exact finishes_of_cons hm hleft hafter x hx below fun _ => ihStack
      · exact finishes_of_kind_ne hx hafter below

end Machine

/-! ### Records -/

namespace Analysis

theorem exists_record_of_not_leftRecursive {a : Analysis} {input : String}
    (hm : (a.machine input).Standard)
    (hleft : ∀ x ∈ a.grammar.nonTerminals, ¬a.grammar.LeftRecursive x) :
    ∃ t verdict, t.status = .finished verdict ∧
      (∀ limit fuel, t.steps.length ≤ limit → a.parse input (some limit) fuel = some t) ∧
      (∀ fuel, t.steps.length ≤ fuel → a.parse input none fuel = some t) :=
  record_of_finishes (Machine.finishes_of_not_leftRecursive hm hleft _ _)

/-- A grammar text without left recursion ends the parse of every input, whether
    its table has conflicts or not: there is one record with a verdict, and it
    is the record under every limit that is not below the number of its steps,
    and without a limit. -/
theorem parse_finishes_of_not_leftRecursive (text input : String)
    (hleft : ∀ x ∈ (ofText text).grammar.nonTerminals, ¬(ofText text).grammar.LeftRecursive x) :
    ∃ t verdict, t.status = .finished verdict ∧
      (∀ limit fuel, t.steps.length ≤ limit →
        (ofText text).parse input (some limit) fuel = some t) ∧
      (∀ fuel, t.steps.length ≤ fuel → (ofText text).parse input none fuel = some t) :=
  exists_record_of_not_leftRecursive (standard_ofText text input) hleft

/-- In `S -> a A S | a` with `A -> b |` both rules of `S` are predicted for `a`, and
    the first is taken. No right side begins with a non-terminal, so every parse
    ends. The one of `a b a` is over after six steps: no rule is predicted for `A` (4)
    and `$`. The other symbols are `S` (2), `a` (3) and `b` (5). -/
theorem parse_finishes_of_conflict :
    let a := ofText "S -> a A S | a\nA -> b |"
    let t : Trace :=
      { tokens := ["a", "b", "a", "$"]
        steps := [⟨[2, 1], 0, .expand 0⟩, ⟨[3, 4, 2, 1], 0, .advance 3⟩,
          ⟨[4, 2, 1], 1, .expand 2⟩, ⟨[5, 2, 1], 1, .advance 5⟩, ⟨[2, 1], 2, .expand 0⟩,
          ⟨[3, 4, 2, 1], 2, .advance 3⟩]
        status := .finished (.rejected (.noRule 4 "$")) }
    a.table.isLL1 = false ∧ (∀ x ∈ a.grammar.nonTerminals, ¬a.grammar.LeftRecursive x) ∧
      (∀ limit fuel, 6 ≤ limit → a.parse "a b a" (some limit) fuel = some t) ∧
      (∀ fuel, 6 ≤ fuel → a.parse "a b a" none fuel = some t) := by
  intro a t
  have hconflict : a.table.isLL1 = false := by decide
  have hfront : ∀ r ∈ a.grammar.rules, ∀ y ∈ r.right.head?, a.grammar.kind y ≠ .nonTerminal := by
    decide
  have hleft : ∀ x ∈ a.grammar.nonTerminals, ¬a.grammar.LeftRecursive x := fun x hx =>
    Grammar.not_leftRecursive_of_head? wellFormed_ofText hfront (Grammar.mem_nonTerminals.1 hx)
  have ht : a.parse "a b a" none 6 = some t := by decide
  obtain ⟨long, verdict, -, hlimit, hfuel⟩ :=
    parse_finishes_of_not_leftRecursive "S -> a A S | a\nA -> b |" "a b a" hleft
  -- the record is the one that is made with little fuel
  obtain rfl : long = t := Machine.parse_unique (hfuel _ (Nat.le_refl _)) ht
  exact ⟨hconflict, hleft, hlimit, hfuel⟩

end Analysis

end Predictive
