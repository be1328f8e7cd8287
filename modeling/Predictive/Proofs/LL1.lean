import Predictive.Proofs.Conflict
import Predictive.Proofs.Machine.Completeness

/-! # The table decides the LL(1) condition

    Two rules for one non-terminal compete if both can be used at the same
    place of a leftmost derivation and lead to words of which the next symbol
    does not tell them apart (`Grammar.Competes`). This says nothing of sets or
    tables.

    * Rules that compete are predicted in the same cell, whatever the grammar
      is (`Competes.exists_rulesAt`).
    * Rules that are predicted in the same cell compete, if the grammar is
      reduced (`Grammar.Reduced`) and `$` is in no right side: the lookahead
      gives a place where both can be used (`Reduced.exists_context`), and from
      there each rule leads to a word that begins with it
      (`Reduced.exists_word`).

    Main result: `Analysis.isLL1_iff_not_competes`.
-/

namespace Predictive

namespace Grammar

variable {g : Grammar} {start x t : Symbol} {form : List Symbol}

/-- In one leftmost form both rules lead on to words which begin with the same
    terminal or are both empty. -/
def Competes (g : Grammar) (start : Symbol) (i j : Nat) : Prop :=
  ∃ (r s : Rule) (is : List Nat) (read pending word word' : List Symbol),
    g.rules[i]? = some r ∧ g.rules[j]? = some s ∧ r.left = s.left ∧
    (∀ y ∈ read ++ word ++ word', y ∈ g.terminals) ∧
    g.LeftmostDerives is [start] (read ++ r.left :: pending) ∧
    g.Derives (r.right ++ pending) word ∧ g.Derives (s.right ++ pending) word' ∧
    word.head? = word'.head?

/-- Every non-terminal derives a word. -/
def Productive (g : Grammar) : Prop :=
  ∀ y ∈ g.nonTerminals, ∃ word, (∀ z ∈ word, z ∈ g.terminals) ∧ g.Derives [y] word

/-- Every non-terminal occurs in a form of the start symbol, and derives a word. -/
structure Reduced (g : Grammar) (start : Symbol) : Prop where
  reachable : ∀ y ∈ g.nonTerminals, ∃ before after, g.Derives [start] (before ++ y :: after)
  productive : g.Productive

/-! ### The next symbol of a word -/

theorem ne_endMark_of_mem_terminals (hg : g.WellFormed) (h : x ∈ g.terminals) :
    x ≠ Symbol.endMark :=
  hg.ne_endMark_of_kind_ne (by rw [(mem_terminals.1 h).2]; decide)

/-- With `$` behind them, words begin with the same symbol just if their heads
    are the same. -/
theorem head?_eq_iff (hg : g.WellFormed) {word word' : List Symbol}
    (hword : ∀ y ∈ word, y ∈ g.terminals) (hword' : ∀ y ∈ word', y ∈ g.terminals) :
    word.head? = word'.head? ↔
      (word ++ [Symbol.endMark]).head? = (word' ++ [Symbol.endMark]).head? := by
  cases word with
  | nil =>
    cases word' with
    | nil => simp
    | cons y word' =>
      have hne := ne_endMark_of_mem_terminals hg (hword' y List.mem_cons_self)
      simp [hne.symm]
  | cons y word =>
    have hne := ne_endMark_of_mem_terminals hg (hword y List.mem_cons_self)
    cases word' with
    | nil => simp [hne]
    | cons z word' => simp

/-! ### Competing rules share a cell -/

theorem Competes.exists_rulesAt (hg : g.WellFormed) (hstart : g.start? = some start) {i j : Nat}
    (h : g.Competes start i j) :
    ∃ y t, i ∈ (g.table g.first.1 (g.follow g.first.1).1).rulesAt y t ∧
      j ∈ (g.table g.first.1 (g.follow g.first.1).1).rulesAt y t := by
  obtain ⟨r, s, is, read, pending, word, word', hr, hs, hleft, hall, hform, hword, hword', hhead⟩ :=
    h
  have hterminal : ∀ y ∈ word, y ∈ g.terminals := fun y hy => hall y (by simp [hy])
  have hterminal' : ∀ y ∈ word', y ∈ g.terminals := fun y hy => hall y (by simp [hy])
  have hlook : ∀ y ∈ word, y ∈ g.lookaheads :=
    fun y hy => mem_lookaheads.2 (.inl (hterminal y hy))
  have hlook' : ∀ y ∈ word', y ∈ g.lookaheads :=
    fun y hy => mem_lookaheads.2 (.inl (hterminal' y hy))
  rw [head?_eq_iff hg hterminal hterminal'] at hhead
  -- the common next symbol is the column
  obtain ⟨t, rest, ht⟩ : ∃ t rest, word ++ [Symbol.endMark] = t :: rest :=
    List.exists_cons_of_ne_nil (by simp)
  obtain ⟨rest', ht'⟩ : ∃ rest', word' ++ [Symbol.endMark] = t :: rest' := by
    rw [ht] at hhead
    exact List.head?_eq_some_iff.1 hhead.symm
  have hcolumn : t ∈ g.lookaheads := by
    have hmem : t ∈ word ++ [Symbol.endMark] := by rw [ht]; exact List.mem_cons_self
    rcases List.mem_append.1 hmem with hmem | hmem
    · exact hlook t hmem
    · exact mem_lookaheads.2 (.inr (List.mem_singleton.1 hmem))
  have hrow : r.left ∈ g.nonTerminals :=
    mem_nonTerminals.2 (hg.kind_left (List.mem_of_getElem? hr))
  have hformr := hform.derives
  have hforms := hformr
  rw [hleft] at hforms
  have hpredicted := mem_lookaheadsOf_of_derives hg hstart (List.mem_of_getElem? hr) hformr hword
    hlook ht
  have hpredicted' := mem_lookaheadsOf_of_derives hg hstart (List.mem_of_getElem? hs) hforms hword'
    hlook' ht'
  refine ⟨r.left, t, ?_, ?_⟩
  · exact mem_rulesAt.2 ⟨hrow, hcolumn, r, hr, rfl, hpredicted⟩
  · exact mem_rulesAt.2 ⟨hrow, hcolumn, s, hs, hleft.symm, hpredicted'⟩

/-! ### Reduced grammars -/

/-- Terminals and non-terminals, which are all that forms hold if `$` is in no
    right side. -/
def IsPlain (g : Grammar) (x : Symbol) : Prop := x ∈ g.terminals ∨ x ∈ g.nonTerminals

section Reduced

variable (hg : g.WellFormed) (hrules : ∀ r ∈ g.rules, Symbol.endMark ∉ r.right)

include hg hrules

theorem isPlain_of_mem_right {r : Rule} (hr : r ∈ g.rules) (hx : x ∈ r.right) : g.IsPlain x := by
  by_cases hkind : g.kind x = .nonTerminal
  · exact .inr (mem_nonTerminals.2 hkind)
  · have hlook := hg.mem_lookaheads_of_kind (hg.lt_size_of_mem_right hr hx)
      (hg.ne_epsilon_of_mem_right hr hx) hkind
    rcases mem_lookaheads.1 hlook with hterminal | hmark
    · exact .inl hterminal
    · rw [hmark] at hx
      exact absurd hx (hrules r hr)

theorem isPlain_of_derives {a : List Symbol} (h : g.Derives a form) (ha : ∀ y ∈ a, g.IsPlain y) :
    ∀ y ∈ form, g.IsPlain y :=
  h.forall_mem (fun _ hr _ hy => isPlain_of_mem_right hg hrules hr hy) ha

theorem isPlain_of_derives_start (hstart : g.start? = some start) (h : g.Derives [start] form) :
    ∀ y ∈ form, g.IsPlain y := by
  apply isPlain_of_derives hg hrules h
  intro y hy
  rw [List.mem_singleton.1 hy]
  exact .inr (mem_nonTerminals.2 (hg.kind_start hstart))

omit hg hrules in
/-- Where every non-terminal derives a word, every plain form does. -/
theorem Productive.exists_derives_word (hproductive : g.Productive)
    (hform : ∀ y ∈ form, g.IsPlain y) :
    ∃ word, (∀ y ∈ word, y ∈ g.terminals) ∧ g.Derives form word := by
  induction form with
  | nil => exact ⟨[], by simp, .refl []⟩
  | cons y form ih =>
    obtain ⟨word, hword, hrest⟩ := ih fun z hz => hform z (List.mem_cons_of_mem _ hz)
    obtain ⟨front, hfront, hy⟩ : ∃ front, (∀ z ∈ front, z ∈ g.terminals) ∧ g.Derives [y] front := by
      rcases hform y List.mem_cons_self with hterminal | hnon
      · exact ⟨[y], by simpa using hterminal, .refl [y]⟩
      · exact hproductive y hnon
    refine ⟨front ++ word, ?_, hy.append hrest⟩
    intro z hz
    rcases List.mem_append.1 hz with hz | hz
    · exact hfront z hz
    · exact hword z hz

namespace Reduced

variable (hreduced : g.Reduced start)

include hreduced

/-- A place in a form of the start symbol is a place of a leftmost derivation. -/
theorem exists_leftmost_place (hstart : g.start? = some start) {before after : List Symbol}
    (h : g.Derives [start] (before ++ x :: after)) :
    ∃ is read pending, (∀ y ∈ read, y ∈ g.terminals) ∧
      g.LeftmostDerives is [start] (read ++ x :: pending) ∧ g.Derives pending after := by
  have hplain := isPlain_of_derives_start hg hrules hstart h
  have hplainBefore : ∀ y ∈ before, g.IsPlain y :=
    fun y hy => hplain y (List.mem_append_left _ hy)
  obtain ⟨read, hread, hbefore⟩ := hreduced.productive.exists_derives_word hplainBefore
  have hkinds : ∀ y ∈ read, g.kind y ≠ .nonTerminal :=
    fun y hy => kind_ne_nonTerminal_of_mem_terminals (hread y hy)
  have hplace : g.Derives [start] (read ++ x :: after) :=
    h.trans (hbefore.append (.refl (x :: after)))
  obtain ⟨is, pending, hleftmost, hpending⟩ := hplace.leftmost_to hg hkinds
  exact ⟨is, read, pending, hread, hleftmost, hpending⟩

/-- A non-terminal has a place in a leftmost derivation where each lookahead in
    question can come next: `t`, if it follows the non-terminal. -/
theorem exists_context (hstart : g.start? = some start) (hx : x ∈ g.nonTerminals) (t : Symbol) :
    ∃ is read pending, (∀ y ∈ read, y ∈ g.terminals) ∧
      g.LeftmostDerives is [start] (read ++ x :: pending) ∧
      (t ∈ (g.follow g.first.1).1.get x →
        ∃ rest after, g.Derives pending rest ∧ rest ++ [Symbol.endMark] = t :: after) := by
  have hkind := mem_nonTerminals.1 hx
  by_cases ht : t ∈ (g.follow g.first.1).1.get x
  · obtain ⟨-, hfollow⟩ := (mem_follow_iff hg hkind).1 ht
    obtain ⟨form, before, after, hform, hmark⟩ :=
      (canFollow_iff_of_reachable hg hstart hreduced.reachable).1 hfollow
    -- `x` stands in the form itself, since the mark behind the form is not `x`
    obtain ⟨rest, rfl, hrest⟩ : ∃ rest, form = before ++ x :: rest ∧
        rest ++ [Symbol.endMark] = t :: after := by
      rcases List.append_eq_append_iff.1 hmark with ⟨tail, -, htail⟩ | ⟨tail, hcut, htail⟩
      · cases tail with
        | nil => cases htail
        | cons y tail => simp at htail
      · cases tail with
        | nil => cases htail
        | cons y rest =>
          obtain ⟨rfl, hafter⟩ := List.cons.inj htail
          exact ⟨rest, hcut, hafter.symm⟩
    obtain ⟨is, read, pending, hread, hleftmost, hpending⟩ :=
      exists_leftmost_place hg hrules hreduced hstart hform
    exact ⟨is, read, pending, hread, hleftmost, fun _ => ⟨rest, after, hpending, hrest⟩⟩
  · obtain ⟨before, after, hform⟩ := hreduced.reachable x hx
    obtain ⟨is, read, pending, hread, hleftmost, -⟩ :=
      exists_leftmost_place hg hrules hreduced hstart hform
    exact ⟨is, read, pending, hread, hleftmost, fun h => absurd h ht⟩

/-- From such a place, a rule that is predicted for `t` leads to a word that
    begins with `t`, or to the empty word if `t` is `$`. -/
theorem exists_word {r : Rule} (hr : r ∈ g.rules)
    (ht : t ∈ lookaheadsOf g.first.1 (g.follow g.first.1).1 r) {pending : List Symbol}
    (hplain : ∀ y ∈ pending, g.IsPlain y)
    (hnext : t ∈ (g.follow g.first.1).1.get r.left →
      ∃ rest after, g.Derives pending rest ∧ rest ++ [Symbol.endMark] = t :: after) :
    ∃ word, (∀ y ∈ word, y ∈ g.terminals) ∧ g.Derives (r.right ++ pending) word ∧
      (word ++ [Symbol.endMark]).head? = some t := by
  have hright := hg.withoutEpsilon_right hr
  have hplainr : ∀ y ∈ r.right, g.IsPlain y := fun _ hy => isPlain_of_mem_right hg hrules hr hy
  -- a plain form that begins with `t` derives a word that does
  have hfinish : ∀ rest : List Symbol, (∀ y ∈ t :: rest, g.IsPlain y) → t ∈ g.lookaheads →
      g.Derives (r.right ++ pending) (t :: rest) →
      ∃ word, (∀ y ∈ word, y ∈ g.terminals) ∧ g.Derives (r.right ++ pending) word ∧
        (word ++ [Symbol.endMark]).head? = some t := by
    intro rest hrest hlook hd
    obtain ⟨word, hword, hderives⟩ := hreduced.productive.exists_derives_word
      fun y hy => hrest y (List.mem_cons_of_mem _ hy)
    have hterminal : t ∈ g.terminals := by
      rcases hrest t List.mem_cons_self with hterminal | hnon
      · exact hterminal
      · exact absurd (mem_nonTerminals.1 hnon) (hg.kind_ne_nonTerminal_of_mem_lookaheads hlook)
    refine ⟨t :: word, ?_, hd.trans ((Derives.refl [t]).append hderives), rfl⟩
    intro y hy
    rcases List.mem_cons.1 hy with rfl | hy
    · exact hterminal
    · exact hword y hy
  rcases mem_lookaheadsOf.1 ht with hbegins | ⟨hnil, hfollow⟩
  · obtain ⟨hlook, rest, hrest⟩ := (mem_ofSequence_first_iff hg).1 hbegins
    rw [hright] at hrest
    have hd := hrest.append (.refl pending)
    refine hfinish (rest ++ pending) ?_ hlook hd
    apply isPlain_of_derives hg hrules hd
    intro y hy
    exact (List.mem_append.1 hy).elim (hplainr y) (hplain y)
  · have hvanish := (vanishes_ofSequence_first_iff hg).1 hnil
    rw [hright] at hvanish
    obtain ⟨rest, after, hpending, hrest⟩ := hnext hfollow
    have hd := hvanish.append hpending
    rw [List.nil_append] at hd
    cases rest with
    | nil =>
      -- nothing is left, and `$` comes next
      obtain ⟨rfl, -⟩ := List.cons.inj hrest
      exact ⟨[], by simp, hd, rfl⟩
    | cons y rest =>
      obtain ⟨rfl, -⟩ := List.cons.inj hrest
      have hlook := ((followSound_follow hg).mem hfollow).2.1
      exact hfinish rest (isPlain_of_derives hg hrules hpending hplain) hlook hd

/-- Rules that share a cell compete. -/
theorem competes (hstart : g.start? = some start) {i j : Nat}
    (hi : i ∈ (g.table g.first.1 (g.follow g.first.1).1).rulesAt x t)
    (hj : j ∈ (g.table g.first.1 (g.follow g.first.1).1).rulesAt x t) :
    g.Competes start i j := by
  obtain ⟨hx, -, r, hr, rfl, htr⟩ := mem_rulesAt.1 hi
  obtain ⟨-, -, s, hs, hleft, hts⟩ := mem_rulesAt.1 hj
  obtain ⟨is, read, pending, hread, hleftmost, hnext⟩ :=
    exists_context hg hrules hreduced hstart hx t
  have hplain : ∀ y ∈ pending, g.IsPlain y := by
    intro y hy
    exact isPlain_of_derives_start hg hrules hstart hleftmost.derives y (by simp [hy])
  obtain ⟨word, hword, hd, hhead⟩ :=
    exists_word hg hrules hreduced (List.mem_of_getElem? hr) htr hplain hnext
  obtain ⟨word', hword', hd', hhead'⟩ :=
    exists_word hg hrules hreduced (List.mem_of_getElem? hs) hts hplain (by rw [hleft]; exact hnext)
  refine ⟨r, s, is, read, pending, word, word', hr, hs, hleft.symm, ?_, hleftmost, hd, hd', ?_⟩
  · intro y hy
    simp only [List.mem_append] at hy
    rcases hy with (hy | hy) | hy
    · exact hread y hy
    · exact hword y hy
    · exact hword' y hy
  · rw [head?_eq_iff hg hword hword', hhead, hhead']

end Reduced

end Reduced

end Grammar

/-! ### Answers about a text -/

namespace Analysis

/-- For a reduced grammar without `$` in its right sides, a table without
    conflicts is the LL(1) condition: no two different rules for one
    non-terminal, used at the same place of a leftmost derivation, lead to
    words that begin with the same terminal or are both empty. -/
theorem isLL1_iff_not_competes (text : String) {start : Symbol}
    (hstart : (ofText text).grammar.start? = some start)
    (hrules : ∀ r ∈ (ofText text).grammar.rules, Symbol.endMark ∉ r.right)
    (hreduced : (ofText text).grammar.Reduced start) :
    (ofText text).table.isLL1 = true ↔
      ¬∃ i j, i ≠ j ∧ (ofText text).grammar.Competes start i j := by
  have hg := @wellFormed_ofText text
  rw [table_ofText, follow_ofText, first_ofText, Grammar.isLL1_table_iff hg]
  constructor
  · intro h hcompetes
    obtain ⟨i, j, hne, hcompetes⟩ := hcompetes
    obtain ⟨x, t, hi, hj⟩ := hcompetes.exists_rulesAt hg hstart
    exact hne (h x t i j hi hj)
  · intro h x t i j hi hj
    by_contra hne
    exact h ⟨i, j, hne, Grammar.Reduced.competes hg hrules hreduced hstart hi hj⟩

/-- In `S -> A b` with `A -> a S |` the symbols are `S` (2), `A` (3), `b` (4) and `a`
    (5). The grammar is reduced and has no conflict. -/
theorem isLL1_iff_not_competes_of_nested :
    let a := ofText "S -> A b\nA -> a S |"
    a.grammar.start? = some 2 ∧ (∀ r ∈ a.grammar.rules, Symbol.endMark ∉ r.right) ∧
      a.grammar.Reduced 2 ∧ a.table.isLL1 = true ∧
      ¬∃ i j, i ≠ j ∧ a.grammar.Competes 2 i j := by
  intro a
  have hstart : a.grammar.start? = some 2 := by decide
  have hrules : ∀ r ∈ a.grammar.rules, Symbol.endMark ∉ r.right := by decide
  have hall : a.grammar.nonTerminals = [2, 3] := by decide
  have hS : a.grammar.Derives [2] [3, 4] :=
    .rule (r := ⟨2, [3, 4]⟩) (by decide)
  have hA : a.grammar.Derives [3] [] := .rule (r := ⟨3, []⟩) (by decide)
  have hreduced : a.grammar.Reduced 2 := by
    refine ⟨?_, ?_⟩
    · rw [hall]
      intro y hy
      rcases List.mem_cons.1 hy with rfl | hy
      · exact ⟨[], [], .refl [2]⟩
      · obtain rfl := List.mem_singleton.1 hy
        exact ⟨[], [4], hS⟩
    · unfold Grammar.Productive
      rw [hall]
      intro y hy
      rcases List.mem_cons.1 hy with rfl | hy
      · exact ⟨[4], by decide, hS.trans (hA.append (.refl [4]))⟩
      · obtain rfl := List.mem_singleton.1 hy
        exact ⟨[], by simp, hA⟩
  have hll1 : a.table.isLL1 = true := by decide
  exact ⟨hstart, hrules, hreduced, hll1,
    (isLL1_iff_not_competes "S -> A b\nA -> a S |" hstart hrules hreduced).1 hll1⟩

end Analysis

end Predictive
