import Predictive.Proofs.Grammar.Printing
import Predictive.Proofs.Sets.Follow

/-! # Grammars with the same rules in another order

    Names are numbered as a text mentions them, so the order of the rules
    decides the number of each symbol. Two grammars that differ in nothing else
    (`Grammar.Reorders`) have symbols of the same names and kinds; the symbol of
    one grammar and its counterpart in the other are `Alike`.

    A derivation is a derivation of the counterparts (`Reorders.derives`), so
    whatever is said by derivations alone is the same in both. Nothing here
    looks at how a set is computed.

    Texts that print the same rules in some order, and begin with rules for the
    same symbol, have such grammars (`Reading.reorders_ofText`).
-/

namespace Predictive

namespace Grammar

/-! ### Rules in names and in numbers -/

/-- A rule written with names. -/
def production (g : Grammar) (r : Rule) : Production := ⟨g.name r.left, g.names r.right⟩

/-- The symbol of a name of the grammar. -/
def number (g : Grammar) (name : String) : Symbol := (g.symbol? name).getD Symbol.epsilon

/-- A production written with numbers. -/
def numbered (g : Grammar) (p : Production) : Rule := ⟨g.number p.left, p.right.map g.number⟩

variable {g h : Grammar} {x y t u : Symbol}

theorem WellFormed.number_name (hg : g.WellFormed) (hx : x < g.size) : g.number (g.name x) = x := by
  unfold number
  rw [hg.symbol?_name hx]
  rfl

theorem WellFormed.map_number_names (hg : g.WellFormed) {xs : List Symbol}
    (h : ∀ x ∈ xs, x < g.size) : (g.names xs).map g.number = xs := by
  unfold names
  rw [List.map_map]
  exact (List.map_congr_left fun x hx => hg.number_name (h x hx)).trans (List.map_id xs)

theorem WellFormed.numbered_production (hg : g.WellFormed) {r : Rule} (hr : r ∈ g.rules) :
    g.numbered (g.production r) = r := by
  show (⟨g.number (g.name r.left), (g.names r.right).map g.number⟩ : Rule) = r
  rw [hg.number_name (hg.lt_size_of_left hr),
    hg.map_number_names fun _ hx => hg.lt_size_of_mem_right hr hx]

/-! ### Counterparts -/

/-- Symbols of two grammars with the same name. -/
structure Alike (g h : Grammar) (x y : Symbol) : Prop where
  left : x < g.size
  right : y < h.size
  name : g.name x = h.name y

theorem Alike.symm (hxy : g.Alike h x y) : h.Alike g y x := ⟨hxy.right, hxy.left, hxy.name.symm⟩

/-- The symbol of the other grammar with this name. -/
def counterpart (g h : Grammar) (x : Symbol) : Symbol := h.number (g.name x)

/-- Two grammars that read from a text, with the same symbols, the same rules
    and the same start symbol, but not in the same order. -/
structure Reorders (g h : Grammar) : Prop where
  left : g.WellFormed
  right : h.WellFormed
  symbols : g.symbols.Perm h.symbols
  rules : (g.rules.map g.production).Perm (h.rules.map h.production)
  start : g.start?.map g.name = h.start?.map h.name

namespace Reorders

variable (hgh : g.Reorders h)

include hgh

theorem symm : h.Reorders g :=
  ⟨hgh.right, hgh.left, hgh.symbols.symm, hgh.rules.symm, hgh.start.symm⟩

/-- Each symbol has its name and its kind in the other grammar, too. -/
theorem exists_alike (hx : x < g.size) : ∃ y, g.Alike h x y ∧ g.kind x = h.kind y := by
  have hmem : g.symbols[x] ∈ h.symbols := hgh.symbols.mem_iff.1 (List.getElem_mem hx)
  obtain ⟨y, hy, heq⟩ := List.mem_iff_getElem.1 hmem
  refine ⟨y, ⟨hx, hy, ?_⟩, ?_⟩
  · unfold name
    rw [List.getElem?_eq_getElem hx, List.getElem?_eq_getElem hy, heq]
  · unfold kind
    rw [List.getElem?_eq_getElem hx, List.getElem?_eq_getElem hy, heq]

theorem counterpart_eq (hxy : g.Alike h x y) : g.counterpart h x = y := by
  unfold counterpart
  rw [hxy.name, hgh.right.number_name hxy.right]

theorem alike_counterpart (hx : x < g.size) : g.Alike h x (g.counterpart h x) := by
  obtain ⟨y, hxy, -⟩ := hgh.exists_alike hx
  rw [hgh.counterpart_eq hxy]
  exact hxy

theorem kind_eq (hxy : g.Alike h x y) : g.kind x = h.kind y := by
  obtain ⟨z, hxz, hkind⟩ := hgh.exists_alike hxy.left
  rw [hkind, ← hgh.counterpart_eq hxz, hgh.counterpart_eq hxy]

theorem alike_epsilon : g.Alike h Symbol.epsilon Symbol.epsilon where
  left := hgh.left.epsilon_lt_size
  right := hgh.right.epsilon_lt_size
  name := by rw [hgh.left.name_epsilon, hgh.right.name_epsilon]

theorem alike_endMark : g.Alike h Symbol.endMark Symbol.endMark where
  left := hgh.left.endMark_lt_size
  right := hgh.right.endMark_lt_size
  name := by rw [hgh.left.name_endMark, hgh.right.name_endMark]

/-- A symbol has one counterpart, and is the counterpart of one symbol. -/
theorem alike_inj {x' y' : Symbol} (hxy : g.Alike h x y) (hxy' : g.Alike h x' y') :
    x = x' ↔ y = y' := by
  constructor
  · intro hx
    rw [← hgh.counterpart_eq hxy, hx, hgh.counterpart_eq hxy']
  · intro hy
    rw [← hgh.symm.counterpart_eq hxy.symm, hy, hgh.symm.counterpart_eq hxy'.symm]

theorem mem_terminals_iff (hxy : g.Alike h x y) : x ∈ g.terminals ↔ y ∈ h.terminals := by
  rw [mem_terminals, mem_terminals, hgh.kind_eq hxy]
  exact and_congr_left fun _ => iff_of_true hxy.left hxy.right

theorem mem_nonTerminals_iff (hxy : g.Alike h x y) : x ∈ g.nonTerminals ↔ y ∈ h.nonTerminals := by
  rw [mem_nonTerminals, mem_nonTerminals, hgh.kind_eq hxy]

theorem mem_lookaheads_iff (hxy : g.Alike h x y) : x ∈ g.lookaheads ↔ y ∈ h.lookaheads := by
  rw [mem_lookaheads, mem_lookaheads, hgh.mem_terminals_iff hxy,
    hgh.alike_inj hxy hgh.alike_endMark]

/-- Sequences of counterparts have the same names. -/
theorem names_map_counterpart {xs : List Symbol} (hxs : ∀ x ∈ xs, x < g.size) :
    h.names (xs.map (g.counterpart h)) = g.names xs := by
  unfold names
  rw [List.map_map]
  exact List.map_congr_left fun x hx => (hgh.alike_counterpart (hxs x hx)).name.symm

theorem map_counterpart_map_counterpart {xs : List Symbol} (hxs : ∀ x ∈ xs, x < g.size) :
    (xs.map (g.counterpart h)).map (h.counterpart g) = xs := by
  rw [List.map_map]
  refine (List.map_congr_left fun x hx => ?_).trans (List.map_id xs)
  exact hgh.symm.counterpart_eq (hgh.alike_counterpart (hxs x hx)).symm

/-- Lists without repetition that hold each other's counterparts have the same
    names up to their order. -/
theorem perm_names {xs ys : List Symbol} (hxs : ∀ x ∈ xs, x < g.size) (hys : ∀ y ∈ ys, y < h.size)
    (hx : xs.Nodup) (hy : ys.Nodup) (hiff : ∀ {x y}, g.Alike h x y → (x ∈ xs ↔ y ∈ ys)) :
    (g.names xs).Perm (h.names ys) := by
  have hnames : (xs.map (g.counterpart h)).Perm ys := by
    refine (List.perm_ext_iff_of_nodup ?_ hy).2 ?_
    · refine List.Nodup.map_on ?_ hx
      intro x hmem x' hmem' heq
      exact (hgh.alike_inj (hgh.alike_counterpart (hxs x hmem))
        (hgh.alike_counterpart (hxs x' hmem'))).2 heq
    · intro y
      rw [List.mem_map]
      constructor
      · rintro ⟨x, hmem, rfl⟩
        exact (hiff (hgh.alike_counterpart (hxs x hmem))).1 hmem
      · intro hmem
        have hxy := (hgh.symm.alike_counterpart (hys y hmem)).symm
        exact ⟨_, (hiff hxy).2 hmem, hgh.counterpart_eq hxy⟩
  rw [← hgh.names_map_counterpart hxs]
  exact hnames.map h.name

/-! ### Rules and derivations -/

/-- The rules of the other grammar are those of this one with their symbols
    replaced by their counterparts. -/
theorem perm_rules : (g.rules.map fun r =>
    (⟨g.counterpart h r.left, r.right.map (g.counterpart h)⟩ : Rule)).Perm h.rules := by
  have hnumbered := hgh.rules.map h.numbered
  have hback : (h.rules.map h.production).map h.numbered = h.rules := by
    rw [List.map_map]
    refine (List.map_congr_left fun r hr => ?_).trans (List.map_id h.rules)
    exact hgh.right.numbered_production hr
  have hforth : (g.rules.map g.production).map h.numbered
      = g.rules.map fun r => ⟨g.counterpart h r.left, r.right.map (g.counterpart h)⟩ := by
    rw [List.map_map]
    apply List.map_congr_left
    intro r _
    show (⟨h.number (g.name r.left), (g.names r.right).map h.number⟩ : Rule) = _
    rw [names, List.map_map]
    rfl
  rw [hback, hforth] at hnumbered
  exact hnumbered

theorem mem_rules {r : Rule} (hr : r ∈ g.rules) :
    ⟨g.counterpart h r.left, r.right.map (g.counterpart h)⟩ ∈ h.rules :=
  hgh.perm_rules.mem_iff.1 (List.mem_map.2 ⟨r, hr, rfl⟩)

theorem start?_eq {start : Symbol} (hstart : g.start? = some start) :
    h.start? = some (g.counterpart h start) := by
  have hnames := hgh.start
  rw [hstart, Option.map_some] at hnames
  obtain ⟨start', hstart', hname⟩ := Option.map_eq_some_iff.1 hnames.symm
  have hlt := lt_size_of_nonTerminal (hgh.left.kind_start hstart)
  have hlt' := lt_size_of_nonTerminal (hgh.right.kind_start hstart')
  rw [hstart', hgh.counterpart_eq ⟨hlt, hlt', hname.symm⟩]

/-- A replacement is a replacement among the counterparts. -/
theorem yields {a b : List Symbol} (hstep : g.Yields a b) :
    h.Yields (a.map (g.counterpart h)) (b.map (g.counterpart h)) := by
  cases hstep with
  | replace before after hr =>
    have hreplace := Yields.replace (before.map (g.counterpart h)) (after.map (g.counterpart h))
      (hgh.mem_rules hr)
    simpa using hreplace

/-- A derivation is a derivation among the counterparts. -/
theorem derives {a b : List Symbol} (hd : g.Derives a b) :
    h.Derives (a.map (g.counterpart h)) (b.map (g.counterpart h)) := by
  induction hd with
  | refl => exact .refl _
  | head step _ ih => exact .head (hgh.yields step) ih

theorem derives_nil_iff {xs : List Symbol} (hxs : ∀ x ∈ xs, x < g.size) :
    g.Derives xs [] ↔ h.Derives (xs.map (g.counterpart h)) [] := by
  constructor
  · exact fun hd => hgh.derives hd
  · intro hd
    have hback := hgh.symm.derives hd
    rw [hgh.map_counterpart_map_counterpart hxs] at hback
    exact hback

theorem begins {xs : List Symbol} (hbegins : g.Begins xs t) :
    h.Begins (xs.map (g.counterpart h)) (g.counterpart h t) := by
  obtain ⟨rest, hrest⟩ := hbegins
  exact ⟨_, hgh.derives hrest⟩

theorem begins_iff {xs : List Symbol} (hxs : ∀ x ∈ xs, x < g.size) (htu : g.Alike h t u) :
    g.Begins xs t ↔ h.Begins (xs.map (g.counterpart h)) u := by
  constructor
  · intro hbegins
    have hforth := hgh.begins hbegins
    rw [hgh.counterpart_eq htu] at hforth
    exact hforth
  · intro hbegins
    have hback := hgh.symm.begins hbegins
    rw [hgh.map_counterpart_map_counterpart hxs, hgh.symm.counterpart_eq htu.symm] at hback
    exact hback

theorem canFollow (hxy : g.Alike h x y) (htu : g.Alike h t u) (hfollow : g.CanFollow x t) :
    h.CanFollow y u := by
  have hx := hgh.counterpart_eq hxy
  have ht := hgh.counterpart_eq htu
  rcases hfollow with ⟨z, hz, before, after, hd⟩ | ⟨rfl, start, hstart, before, hd⟩
  · have hforth := hgh.derives hd
    simp only [List.map_append, List.map_cons, List.map_nil, hx, ht] at hforth
    have hz' := hgh.alike_counterpart (lt_size_of_mem_nonTerminals hz)
    exact .inl ⟨_, (hgh.mem_nonTerminals_iff hz').1 hz, _, _, hforth⟩
  · have hforth := hgh.derives hd
    rw [List.map_append, List.map_singleton, List.map_singleton, hx] at hforth
    have hmark : u = Symbol.endMark := (hgh.alike_inj htu hgh.alike_endMark).1 rfl
    exact .inr ⟨hmark, _, hgh.start?_eq hstart, _, hforth⟩

theorem canFollow_iff (hxy : g.Alike h x y) (htu : g.Alike h t u) :
    g.CanFollow x t ↔ h.CanFollow y u :=
  ⟨hgh.canFollow hxy htu, hgh.symm.canFollow hxy.symm htu.symm⟩

end Reorders

/-! ### Productions in another order -/

variable {ps qs : List Production}

theorem production_ofProductions {p : Production} (hp : p ∈ ps) : (ofProductions ps).production
    ⟨(namesOf ps).idxOf p.left, p.right.map (namesOf ps).idxOf⟩ = p := by
  unfold production
  simp only
  rw [name_ofProductions (getElem?_idxOf_namesOf (left_mem_namesOf hp)),
    names_map_idxOf fun _ hname => mem_namesOf_of_mem_right hp hname]

theorem map_production_ofProductions :
    (ofProductions ps).rules.map (ofProductions ps).production = ps := by
  show (ps.map _).map _ = ps
  rw [List.map_map]
  exact (List.map_congr_left fun p hp => production_ofProductions hp).trans (List.map_id ps)

/-- The kind of a name does not depend on the order of the productions, even if
    a right side mentions the name before a production defines it. -/
theorem kindOf_perm (hperm : ps.Perm qs) : kindOf ps = kindOf qs := by
  funext name
  have hany : (ps.any (·.left == name)) = qs.any (·.left == name) := by
    rw [Bool.eq_iff_iff, List.any_eq_true, List.any_eq_true]
    exact exists_congr fun p => and_congr_left fun _ => hperm.mem_iff
  unfold kindOf
  rw [hany]

theorem namesOf_perm (hperm : ps.Perm qs) : (namesOf ps).Perm (namesOf qs) := by
  rw [List.perm_ext_iff_of_nodup nodup_namesOf nodup_namesOf]
  intro name
  rw [mem_namesOf, mem_namesOf]
  refine or_congr_right (or_congr_right ?_)
  exact exists_congr fun p => and_congr_left fun _ => hperm.mem_iff

theorem reorders_ofProductions (hps : ∀ p ∈ ps, p.WellFormed) (hperm : ps.Perm qs)
    (hstart : (ofProductions ps).start?.map (ofProductions ps).name
      = (ofProductions qs).start?.map (ofProductions qs).name) :
    (ofProductions ps).Reorders (ofProductions qs) where
  left := wellFormed_ofProductions hps
  right := wellFormed_ofProductions fun p hp => hps p (hperm.mem_iff.2 hp)
  symbols := by
    show ((namesOf ps).map fun name => (⟨name, kindOf ps name⟩ : Entry)).Perm
      ((namesOf qs).map fun name => ⟨name, kindOf qs name⟩)
    rw [kindOf_perm hperm]
    exact (namesOf_perm hperm).map _
  rules := by
    rw [map_production_ofProductions, map_production_ofProductions]
    exact hperm
  start := hstart

end Grammar

/-! ### Printed rules in another order -/

namespace Reading

/-- The productions of a printed line. -/
def printedProductions (line : String) : List Production :=
  match RuleLine.read line.toList with
  | .ok r => r.productions
  | .error _ => []

/-- Productions that can be printed are read back from their lines. -/
theorem flatMap_printedProductions {ps : List Production} (hps : ∀ p ∈ ps, p.Printable) :
    (ps.map Production.text).flatMap printedProductions = ps := by
  rw [List.flatMap_map]
  have hline : ∀ p ∈ ps, printedProductions p.text = [p] := by
    intro p hp
    unfold printedProductions
    rw [(hps p hp).read_text]
    rfl
  rw [List.flatMap_congr hline, List.flatMap_singleton' ps]

/-- Texts whose rules are printed alike, up to their order, have grammars that
    differ in nothing else. -/
theorem reorders_ofText {text other : String}
    (hrules : ((ofText text).grammar.rules.map (ofText text).grammar.ruleText).Perm
      ((ofText other).grammar.rules.map (ofText other).grammar.ruleText))
    (hstart : (ofText text).grammar.start?.map (ofText text).grammar.name
      = (ofText other).grammar.start?.map (ofText other).grammar.name) :
    (ofText text).grammar.Reorders (ofText other).grammar := by
  have hprinted : ∀ text, (ofText text).grammar.rules.map (ofText text).grammar.ruleText
      = (productions text.toList).map Production.text := by
    intro text
    show ((productions text.toList).map _).map _ = _
    rw [List.map_map]
    exact List.map_congr_left fun p hp => Grammar.ruleText_ofProductions hp
  rw [hprinted, hprinted] at hrules
  have hread := hrules.flatMap_right printedProductions
  rw [flatMap_printedProductions fun _ hp => printable_of_mem_productions hp,
    flatMap_printedProductions fun _ hp => printable_of_mem_productions hp] at hread
  exact Grammar.reorders_ofProductions (fun _ hp => wellFormed_of_mem_productions hp) hread hstart

end Reading

end Predictive
