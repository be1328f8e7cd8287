import Predictive.Grammar.Register
import Predictive.Proofs.Grammar.Numbering

/-! # The register is the grammar

    While the names of a text are entered one after the other, the register
    always holds the names that were mentioned so far, without repetition, and
    the rules that were completed (`Register.holding`). Entering a name mentions
    it (`intern_holding`), entering an alternative completes a production
    (`addAlternative_holding`), and so on to a whole text (`ofLines_eq`): at the
    end the register says what the grammar says.

    A number, once given, stays: the names that come later are placed behind the
    names mentioned before (`idxOf_eraseDups_append`).

    Main result: `Register.ofText_eq`.
-/

namespace Predictive

/-! ### Names without repetition -/

section EraseDups

variable {ms more : List String} {name : String}

/-- A name that was mentioned before adds nothing. -/
theorem eraseDups_append_cons_of_mem (h : name ∈ ms) :
    (ms ++ name :: more).eraseDups = (ms ++ more).eraseDups := by
  have hskip : (name :: more).removeAll ms = more.removeAll ms := by
    unfold List.removeAll
    rw [List.filter_cons_of_neg (by simpa using h)]
  rw [List.eraseDups_append, List.eraseDups_append, hskip]

theorem eraseDups_concat_of_mem (h : name ∈ ms) : (ms ++ [name]).eraseDups = ms.eraseDups := by
  rw [eraseDups_append_cons_of_mem h, List.append_nil]

theorem eraseDups_concat_of_not_mem (h : name ∉ ms) :
    (ms ++ [name]).eraseDups = ms.eraseDups ++ [name] := by
  have hkeep : [name].removeAll ms = [name] := by
    unfold List.removeAll
    rw [List.filter_cons_of_pos (by simpa using h)]
    rfl
  rw [List.eraseDups_append, hkeep]
  rfl

/-- The place of a name does not change when more names are mentioned. -/
theorem idxOf_eraseDups_append (h : name ∈ ms) :
    (ms ++ more).eraseDups.idxOf name = ms.eraseDups.idxOf name := by
  rw [List.eraseDups_append, List.idxOf_append, if_pos (List.mem_eraseDups.2 h)]

end EraseDups

namespace Register

variable {kindOf : String → Kind} {start? : Option Symbol} {ms more : List String}
variable {ps : List Production} {name : String}

/-! ### What a register holds -/

/-- The register of these entries, with this start symbol and these rules. -/
def ofEntries (start? : Option Symbol) (entries : List Entry) (rules : List RuleItem) : Register :=
  { symbols := entries.mapIdx fun i e => ⟨i, e.name, e.kind⟩
    find? := (⟨entries, []⟩ : Grammar).symbol?
    start? := start?
    nonTerminals := (⟨entries, []⟩ : Grammar).nonTerminals.filter (some · ≠ start?)
    terminals := (⟨entries, []⟩ : Grammar).terminals
    rules := rules }

/-- The rules of productions, where a name has its place in `names` as number. -/
def ruleItems (names : List String) (ps : List Production) : List RuleItem :=
  ps.mapIdx fun i p =>
    ⟨i, names.idxOf p.left, (⟨names.idxOf p.left, p.right.map names.idxOf⟩ : Rule).shown⟩

/-- The register that holds the names mentioned in `ms` and the productions `ps`. -/
def holding (kindOf : String → Kind) (start? : Option Symbol) (ms : List String)
    (ps : List Production) : Register :=
  ofEntries start? (ms.eraseDups.map fun name => ⟨name, kindOf name⟩) (ruleItems ms.eraseDups ps)

/-- The names of productions in the order in which they are mentioned. -/
def mentions (ps : List Production) : List String := ps.flatMap fun p => p.left :: p.right

/-- One more entry of kind `k` or of another kind. -/
theorem ofKind_concat (entries : List Entry) (e : Entry) (rules : List Rule) (k : Kind) :
    (⟨entries ++ [e], rules⟩ : Grammar).ofKind k
      = (⟨entries, rules⟩ : Grammar).ofKind k ++ if e.kind = k then [entries.length] else [] := by
  have hsize : (⟨entries ++ [e], rules⟩ : Grammar).size = entries.length + 1 := by
    simp [Grammar.size]
  have hlast : (⟨entries ++ [e], rules⟩ : Grammar).kind entries.length = e.kind := by
    simp [Grammar.kind]
  have hbefore : ∀ x ∈ List.range entries.length,
      decide ((⟨entries ++ [e], rules⟩ : Grammar).kind x = k)
        = decide ((⟨entries, rules⟩ : Grammar).kind x = k) := by
    intro x hx
    unfold Grammar.kind
    simp only
    rw [List.getElem?_append_left (List.mem_range.1 hx)]
  unfold Grammar.ofKind
  rw [hsize, List.range_succ, List.filter_append, List.filter_congr hbefore]
  congr 1
  by_cases hk : e.kind = k <;> simp [hlast, hk]

theorem symbol?_concat (entries : List Entry) (e : Entry) (rules : List Rule) {other : String}
    (hnew : (⟨entries, rules⟩ : Grammar).symbol? e.name = none) :
    (⟨entries ++ [e], rules⟩ : Grammar).symbol? other
      = if other = e.name then some entries.length
        else (⟨entries, rules⟩ : Grammar).symbol? other := by
  unfold Grammar.symbol? at hnew ⊢
  simp only at hnew ⊢
  rw [List.findIdx?_append]
  by_cases hother : other = e.name
  · rw [hother, hnew]
    simp
  · have hne : (e.name == other) = false := beq_eq_false_iff_ne.2 (Ne.symm hother)
    simp [hother, hne]

/-- Adding a name changes neither list. -/
theorem add_ofEntries {entries : List Entry} {rules : List RuleItem} {kind : Kind}
    (hnew : (ofEntries start? entries rules).find? name = none) :
    (ofEntries start? entries rules).add name kind
      = { ofEntries start? (entries ++ [⟨name, kind⟩]) rules with
          nonTerminals := (ofEntries start? entries rules).nonTerminals
          terminals := (ofEntries start? entries rules).terminals } := by
  have hlength : (ofEntries start? entries rules).symbols.length = entries.length := by
    simp [ofEntries]
  have hfind : (⟨entries ++ [⟨name, kind⟩], []⟩ : Grammar).symbol?
      = fun other => if other = name then some entries.length
          else (⟨entries, []⟩ : Grammar).symbol? other :=
    funext fun other => symbol?_concat entries ⟨name, kind⟩ [] hnew
  unfold add
  rw [hlength]
  unfold ofEntries
  simp only [hfind, List.mapIdx_concat]

/-- A new name is one more entry. -/
theorem intern_ofEntries {entries : List Entry} {rules : List RuleItem} {kind : Kind}
    (hnew : (ofEntries start? entries rules).find? name = none) :
    (ofEntries start? entries rules).intern name kind
      = (ofEntries start? (entries ++ [⟨name, kind⟩]) rules, entries.length) := by
  have hlength : (ofEntries start? entries rules).symbols.length = entries.length := by
    simp [ofEntries]
  have hkind := fun k => ofKind_concat entries ⟨name, kind⟩ [] k
  unfold intern
  rw [hnew, hlength, add_ofEntries hnew]
  refine Prod.ext ?_ rfl
  unfold ofEntries Grammar.nonTerminals Grammar.terminals
  simp only [hkind, List.filter_append]
  cases kind with
  | terminal => simp [list]
  | nonTerminal =>
    by_cases hstart : start? = some entries.length
    · simp [list, hstart]
    · simp [list, hstart, Ne.symm hstart]
  | epsilon => simp [list]
  | endMarker => simp [list]

/-! ### Entering names -/

theorem mem_mentions : name ∈ mentions ps ↔ ∃ p ∈ ps, name = p.left ∨ name ∈ p.right := by
  unfold mentions
  simp only [List.mem_flatMap, List.mem_cons]

/-- Rules keep their numbers when more names are mentioned. -/
theorem ruleItems_append (h : mentions ps ⊆ ms) :
    ruleItems (ms ++ more).eraseDups ps = ruleItems ms.eraseDups ps := by
  have hplace : ∀ name ∈ mentions ps, (ms ++ more).eraseDups.idxOf name = ms.eraseDups.idxOf name :=
    fun name hname => idxOf_eraseDups_append (h hname)
  refine List.mapIdx_eq_mapIdx_iff.2 fun i hi => ?_
  have hp : ps[i] ∈ ps := List.getElem_mem hi
  have hleft := hplace _ (mem_mentions.2 ⟨_, hp, .inl rfl⟩)
  have hright : ps[i].right.map (ms ++ more).eraseDups.idxOf = ps[i].right.map ms.eraseDups.idxOf :=
    List.map_congr_left fun name hname => hplace name (mem_mentions.2 ⟨_, hp, .inr hname⟩)
  rw [hleft, hright]

theorem find?_holding : (holding kindOf start? ms ps).find? name
    = if name ∈ ms then some (ms.eraseDups.idxOf name) else none := by
  show (⟨ms.eraseDups.map _, []⟩ : Grammar).symbol? name = _
  rw [Grammar.symbol?_map]
  simp only [List.mem_eraseDups]

/-- A name that is entered counts as mentioned. -/
theorem intern_holding (h : mentions ps ⊆ ms) :
    (holding kindOf start? ms ps).intern name (kindOf name)
      = (holding kindOf start? (ms ++ [name]) ps, (ms ++ [name]).eraseDups.idxOf name) := by
  by_cases hmem : name ∈ ms
  · unfold intern
    rw [find?_holding, if_pos hmem]
    unfold holding
    rw [eraseDups_concat_of_mem hmem]
  · -- the new name is placed last, behind all names that the rules mention
    have hnew : (holding kindOf start? ms ps).find? name = none := by
      rw [find?_holding, if_neg hmem]
    have hnot : name ∉ ms.eraseDups := fun hin => hmem (List.mem_eraseDups.1 hin)
    unfold holding at hnew ⊢
    rw [intern_ofEntries hnew, ruleItems_append h, eraseDups_concat_of_not_mem hmem,
      List.map_append, List.length_map, List.idxOf_append, if_neg hnot]
    simp

theorem internAll_holding {names : List String} (h : mentions ps ⊆ ms) :
    (holding kindOf start? ms ps).internAll kindOf names
      = (holding kindOf start? (ms ++ names) ps, names.map (ms ++ names).eraseDups.idxOf) := by
  induction names generalizing ms with
  | nil =>
    rw [List.append_nil]
    rfl
  | cons name names ih =>
    have hms : ms ++ name :: names = ms ++ [name] ++ names := by simp
    have hmem : name ∈ ms ++ [name] := by simp
    rw [internAll, intern_holding h]
    simp only
    rw [ih (List.subset_append_of_subset_left [name] h), hms, List.map_cons,
      idxOf_eraseDups_append hmem]

/-! ### Entering rules -/

/-- Only the names without repetition matter. -/
theorem holding_congr {ns : List String} (h : ms.eraseDups = ns.eraseDups) :
    holding kindOf start? ms ps = holding kindOf start? ns ps := by
  unfold holding
  rw [h]

theorem mentions_append (ps qs : List Production) :
    mentions (ps ++ qs) = mentions ps ++ mentions qs := List.flatMap_append

theorem addRule_holding {left : String} {names : List String} :
    (holding kindOf start? ms ps).addRule (ms.eraseDups.idxOf left) (names.map ms.eraseDups.idxOf)
      = holding kindOf start? ms (ps ++ [⟨left, names⟩]) := by
  have hlength : (ruleItems ms.eraseDups ps).length = ps.length := List.length_mapIdx
  have hrules : ruleItems ms.eraseDups (ps ++ [⟨left, names⟩]) = _ := List.mapIdx_concat
  unfold holding addRule
  rw [hrules, ← hlength]
  rfl

/-- Entering an alternative completes a production. -/
theorem addAlternative_holding {left : String} {names : List String} (h : mentions ps ⊆ ms)
    (hleft : left ∈ ms) :
    addAlternative kindOf (ms.eraseDups.idxOf left) (holding kindOf start? ms ps) names
      = holding kindOf start? (ms ++ left :: names) (ps ++ [⟨left, names⟩]) := by
  unfold addAlternative
  rw [internAll_holding h, ← idxOf_eraseDups_append hleft]
  show addRule _ _ _ = _
  rw [addRule_holding]
  exact holding_congr (eraseDups_append_cons_of_mem hleft).symm

theorem foldl_addAlternative_holding {left : String} {alternatives : List (List String)}
    (h : mentions ps ⊆ ms) (hleft : left ∈ ms) :
    alternatives.foldl (addAlternative kindOf (ms.eraseDups.idxOf left))
        (holding kindOf start? ms ps)
      = holding kindOf start? (ms ++ mentions (alternatives.map (⟨left, ·⟩)))
          (ps ++ alternatives.map (⟨left, ·⟩)) := by
  induction alternatives generalizing ms ps with
  | nil => simp [mentions]
  | cons names alternatives ih =>
    have hnext : mentions (ps ++ [⟨left, names⟩]) ⊆ ms ++ left :: names := by
      rw [mentions_append]
      exact List.append_subset.2 ⟨List.subset_append_of_subset_left _ h, by simp [mentions]⟩
    have hplace : ms.eraseDups.idxOf left = (ms ++ left :: names).eraseDups.idxOf left :=
      (idxOf_eraseDups_append hleft).symm
    rw [List.foldl_cons, addAlternative_holding h hleft, hplace,
      ih hnext (List.mem_append_left _ hleft)]
    simp [mentions]

/-- A line that has an alternative begins with a production of its left side. -/
theorem productions_eq_cons {line : RuleLine} (hne : line.alternatives ≠ []) :
    ∃ p rest, line.productions = p :: rest ∧ p.left = line.left := by
  obtain ⟨names, more, halternatives⟩ := List.exists_cons_of_ne_nil hne
  unfold RuleLine.productions
  rw [halternatives]
  exact ⟨_, _, rfl, rfl⟩

/-- Entering a line completes its productions. A line mentions its left side even
    if it has no alternatives, but a line that was read has one. -/
theorem addLine_holding {line : RuleLine} (h : mentions ps ⊆ ms)
    (hkind : kindOf line.left = .nonTerminal) (hne : line.alternatives ≠ []) :
    (holding kindOf start? ms ps).addLine kindOf line
      = holding kindOf start? (ms ++ mentions line.productions) (ps ++ line.productions) := by
  have hmem : line.left ∈ ms ++ [line.left] := by simp
  unfold addLine
  rw [← hkind, intern_holding h]
  show line.alternatives.foldl _ _ = _
  rw [foldl_addAlternative_holding (List.subset_append_of_subset_left [line.left] h) hmem]
  -- the left side is mentioned by the line and again by its first alternative
  apply holding_congr
  obtain ⟨p, rest, hproductions, hleft⟩ := productions_eq_cons hne
  show (ms ++ [line.left] ++ mentions line.productions).eraseDups = _
  rw [hproductions]
  show (ms ++ [line.left] ++ p.left :: _).eraseDups = (ms ++ p.left :: _).eraseDups
  rw [hleft, eraseDups_append_cons_of_mem hmem, List.append_assoc]
  rfl

theorem foldl_addLine_holding {lines : List RuleLine} (h : mentions ps ⊆ ms)
    (hkind : ∀ line ∈ lines, kindOf line.left = .nonTerminal)
    (hne : ∀ line ∈ lines, line.alternatives ≠ []) :
    lines.foldl (addLine kindOf) (holding kindOf start? ms ps)
      = holding kindOf start? (ms ++ mentions (lines.flatMap RuleLine.productions))
          (ps ++ lines.flatMap RuleLine.productions) := by
  induction lines generalizing ms ps with
  | nil => simp [mentions]
  | cons line lines ih =>
    have hnext : mentions (ps ++ line.productions) ⊆ ms ++ mentions line.productions := by
      rw [mentions_append]
      exact List.append_subset.2 ⟨List.subset_append_of_subset_left _ h,
        List.subset_append_right ms _⟩
    rw [List.foldl_cons, addLine_holding h (hkind line List.mem_cons_self)
        (hne line List.mem_cons_self),
      ih hnext (fun l hl => hkind l (List.mem_cons_of_mem line hl))
        (fun l hl => hne l (List.mem_cons_of_mem line hl)),
      List.flatMap_cons, mentions_append, List.append_assoc, List.append_assoc]

/-! ### Entering a text -/

section Reserved

variable (hepsilon : kindOf Symbol.epsilonName = .epsilon)
variable (hmark : kindOf Symbol.endMarkName = .endMarker)

include hepsilon hmark

/-- At the beginning the two reserved names are mentioned. -/
theorem blank_eq : { blank with start? := start? }
    = holding kindOf start? [Symbol.epsilonName, Symbol.endMarkName] [] := by
  have hempty : { empty with start? := start? } = holding kindOf start? [] [] := rfl
  -- the reserved kinds are not listed, so that adding is entering
  have hblank : { blank with start? := start? }
      = ((({ empty with start? := start? } : Register).intern Symbol.epsilonName
          (kindOf Symbol.epsilonName)).1.intern Symbol.endMarkName
          (kindOf Symbol.endMarkName)).1 := by
    rw [hepsilon, hmark]
    rfl
  rw [hblank, hempty, intern_holding (List.nil_subset _)]
  show (Register.intern _ _ _).1 = _
  rw [intern_holding (List.nil_subset _)]
  rfl

/-- The left side of the first line is mentioned next, and it is the start. -/
theorem opened_eq {line : RuleLine} {lines : List RuleLine}
    (hkind : kindOf line.left = .nonTerminal) :
    opened (line :: lines)
      = holding kindOf (some 2) [Symbol.epsilonName, Symbol.endMarkName, line.left] [] := by
  have hne : line.left ≠ Symbol.epsilonName ∧ line.left ≠ Symbol.endMarkName := by
    constructor
    · intro h
      rw [h, hepsilon] at hkind
      cases hkind
    · intro h
      rw [h, hmark] at hkind
      cases hkind
  have hnew : ({ blank with start? := some 2 } : Register).find? line.left = none := by
    show (if line.left = Symbol.endMarkName then _
      else if line.left = Symbol.epsilonName then _ else _) = _
    rw [if_neg hne.2, if_neg hne.1]
    rfl
  have hopened : opened (line :: lines)
      = (({ blank with start? := some 2 } : Register).intern line.left (kindOf line.left)).1 := by
    unfold intern
    rw [hkind, hnew]
    rfl
  rw [hopened, blank_eq hepsilon hmark, intern_holding (List.nil_subset _)]
  rfl

end Reserved

/-- What the lines of a text define is what their productions define. -/
theorem kindAmong_eq {lines : List RuleLine} (hne : ∀ line ∈ lines, line.alternatives ≠ []) :
    kindAmong lines = Grammar.kindOf (lines.flatMap RuleLine.productions) := by
  have hany : ∀ name, lines.any (·.left == name)
      = (lines.flatMap RuleLine.productions).any (·.left == name) := by
    intro name
    rw [Bool.eq_iff_iff, List.any_eq_true, List.any_eq_true]
    constructor
    · rintro ⟨line, hline, hleft⟩
      obtain ⟨p, rest, hproductions, hp⟩ := productions_eq_cons (hne line hline)
      refine ⟨p, List.mem_flatMap.2 ⟨line, hline, ?_⟩, by rwa [hp]⟩
      rw [hproductions]
      exact List.mem_cons_self
    · rintro ⟨p, hp, hleft⟩
      obtain ⟨line, hline, hp⟩ := List.mem_flatMap.1 hp
      obtain ⟨names, -, rfl⟩ := List.mem_map.1 hp
      exact ⟨line, hline, hleft⟩
  funext name
  unfold kindAmong Grammar.kindOf
  rw [hany]

/-- The start symbol has the first number that is free. -/
theorem start?_ofProductions {p : Production} (hepsilon : p.left ≠ Symbol.epsilonName)
    (hmark : p.left ≠ Symbol.endMarkName) :
    (Grammar.ofProductions (p :: ps)).start? = some 2 := by
  have hreserved : Symbol.endMarkName ≠ Symbol.epsilonName := by decide
  have hplace : (Grammar.namesOf (p :: ps)).idxOf p.left = 2 := by
    show ([Symbol.epsilonName, Symbol.endMarkName, p.left] ++ _).eraseDups.idxOf p.left = 2
    rw [idxOf_eraseDups_append (by simp)]
    have hfirst : (Symbol.epsilonName == p.left) = false := beq_eq_false_iff_ne.2 hepsilon.symm
    have hsecond : (Symbol.endMarkName == p.left) = false := beq_eq_false_iff_ne.2 hmark.symm
    simp [List.eraseDups_cons, List.idxOf_cons, hreserved, hepsilon, hmark, hfirst, hsecond]
  show some ((Grammar.namesOf (p :: ps)).idxOf p.left) = some 2
  rw [hplace]

theorem holding_eq_register : holding (Grammar.kindOf ps) (Grammar.ofProductions ps).start?
      (Symbol.epsilonName :: Symbol.endMarkName :: mentions ps) ps
    = (Grammar.ofProductions ps).register := by
  have hnames : (Symbol.epsilonName :: Symbol.endMarkName :: mentions ps).eraseDups
      = Grammar.namesOf ps := rfl
  have hrules : ruleItems (Grammar.namesOf ps) ps
      = (Grammar.ofProductions ps).rules.mapIdx fun i r => ⟨i, r.left, r.shown⟩ := by
    unfold ruleItems Grammar.ofProductions
    exact List.ext_getElem (by simp) (by simp)
  unfold holding
  rw [hnames, hrules]
  rfl

/-- Lines that were read are entered as their grammar says. -/
theorem ofLines_eq {lines : List RuleLine} (hne : ∀ line ∈ lines, line.alternatives ≠ [])
    (hps : ∀ p ∈ lines.flatMap RuleLine.productions, p.WellFormed) :
    ofLines lines = (Grammar.ofProductions (lines.flatMap RuleLine.productions)).register := by
  have hepsilon : kindAmong lines Symbol.epsilonName = .epsilon := by
    rw [kindAmong_eq hne, Grammar.kindOf_of_forall_left_ne fun p hp => (hps p hp).left.ne_epsilon]
    rfl
  have hmark : kindAmong lines Symbol.endMarkName = .endMarker := by
    rw [kindAmong_eq hne, Grammar.kindOf_of_forall_left_ne fun p hp => (hps p hp).left_ne_endMark]
    rfl
  have hkind : ∀ line ∈ lines, kindAmong lines line.left = .nonTerminal := by
    intro line hline
    unfold kindAmong
    rw [if_pos]
    exact List.any_eq_true.2 ⟨line, hline, beq_self_eq_true _⟩
  rw [← holding_eq_register, ← kindAmong_eq hne]
  unfold ofLines
  cases lines with
  | nil => exact blank_eq hepsilon hmark
  | cons line lines =>
    obtain ⟨p, rest, hproductions, hleft⟩ := productions_eq_cons (hne line List.mem_cons_self)
    have hfirst : (line :: lines).flatMap RuleLine.productions
        = p :: (rest ++ lines.flatMap RuleLine.productions) := by
      rw [List.flatMap_cons, hproductions]
      rfl
    have hp : p.WellFormed := hps p (by rw [hfirst]; exact List.mem_cons_self)
    rw [opened_eq hepsilon hmark (hkind line List.mem_cons_self),
      foldl_addLine_holding (List.nil_subset _) hkind hne, hfirst,
      start?_ofProductions hp.left.ne_epsilon hp.left_ne_endMark]
    -- the first left side is mentioned as the start symbol and again by its line
    apply holding_congr
    rw [← hleft]
    exact eraseDups_append_cons_of_mem (by simp)

/-- Entering the names of a text one after the other gives its grammar. -/
theorem ofText_eq (text : String) : ofText text = (Reading.ofText text).grammar.register := by
  apply ofLines_eq
  · intro line hline
    obtain ⟨cs, -, hread⟩ := Reading.ok_mem_lines_iff.1 (Reading.mem_rules.1 hline)
    obtain ⟨before, after, -, -, halternatives⟩ := RuleLine.read_eq_ok_iff.1 hread
    rw [halternatives]
    simpa using Text.splitWhere_ne_nil _ after
  · exact fun p hp => Reading.wellFormed_of_mem_productions hp

end Register

end Predictive
