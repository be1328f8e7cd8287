import Predictive.Checked.Sets
import Predictive.Proofs.Checked.Access
import Predictive.Proofs.Sets.Follow

/-! # The sets are computed without a fault

    For a well-formed grammar the look-ups of the sweeps for FIRST and FOLLOW are
    in range from the first pass to the last: there is a set for each symbol
    throughout, and the rules mention no other symbols.

    The scan of a right side goes by kinds and looks up the sets of non-terminals
    only. It agrees with `SymbolSets.ofSequence`, which goes by sets alone, as
    long as a symbol of another kind has itself alone in its set (`Seeded`). The
    sweeps keep this, since a rule adds to the set of a non-terminal.

    Main results: `first_eq` and `follow_eq`.
-/

namespace Predictive.Checked

variable {g : Grammar} {first sets : SymbolSets} {x : Symbol} {xs : List Symbol} {r : Rule}

theorem read_get (h : x < sets.length) : read sets x = .ok (sets.get x) := by
  rw [SymbolSets.get_eq_getElem h]
  exact read_of_getElem? (List.getElem?_eq_getElem h)

theorem update_add (h : x < sets.length) (s : SymbolSet) :
    update sets x (· ∪ s) = .ok (sets.add x s) := update_of_lt h _

/-- Sweeping is total if every sweep is on what the sweeps before it can leave. -/
theorem saturate_eq {α : Type} [DecidableEq α] {sweep : α → Except Fault α} {total : α → α}
    (inv : α → Prop) (h : ∀ a, inv a → sweep a = .ok (total a) ∧ inv (total a)) {fuel : Nat} {a : α}
    (ha : inv a) : saturate sweep fuel a = .ok (Predictive.saturate total fuel a) := by
  induction fuel generalizing a with
  | zero => rfl
  | succ fuel ih =>
    obtain ⟨hsweep, hnext⟩ := h a ha
    unfold saturate Predictive.saturate
    rw [hsweep, ok_bind]
    split
    · rfl
    · rw [ih hnext]
      rfl

/-! ### FIRST -/

/-- There is a set for each symbol, and a symbol that is no non-terminal has
    itself alone in its set. -/
structure Seeded (g : Grammar) (first : SymbolSets) : Prop where
  length_eq : first.length = g.size
  self : ∀ {x : Symbol}, x < g.size → g.kind x ≠ .nonTerminal → first.get x = .singleton x

theorem seeded_firstSeed : Seeded g g.firstSeed where
  length_eq := Grammar.length_firstSeed
  self := by
    intro x hx hkind
    apply SymbolSet.ext
    intro t
    rw [Grammar.mem_get_firstSeed, SymbolSet.mem_singleton]
    constructor
    · exact fun h => h.2.2
    · exact fun h => ⟨hx, hkind, h⟩

/-- A rule adds to the set of a non-terminal only. -/
theorem Seeded.add (h : Seeded g first) (hx : g.kind x = .nonTerminal) (s : SymbolSet) :
    Seeded g (first.add x s) where
  length_eq := by rw [SymbolSets.length_add, h.length_eq]
  self := by
    intro y hy hkind
    have hlt : x < first.length := by
      rw [h.length_eq]
      exact Grammar.lt_size_of_nonTerminal hx
    have hne : y ≠ x := fun heq => hkind (heq ▸ hx)
    rw [SymbolSets.get_add hlt, if_neg hne, h.self hy hkind]

theorem seeded_first (hg : g.WellFormed) : Seeded g g.first.1 := by
  rw [Grammar.first_eq]
  exact SymbolSets.saturate_sweep_induction
    (fun _ _ hr hsets => hsets.add (hg.kind_left hr) _) seeded_firstSeed

/-- A set without `ε` has nothing to lose. -/
theorem erase_epsilon {s : SymbolSet} (h : Symbol.epsilon ∉ s) : s.erase Symbol.epsilon = s := by
  apply SymbolSet.ext
  intro t
  rw [SymbolSet.mem_erase]
  exact and_iff_left_of_imp fun ht heq => h (heq ▸ ht)

/-- A scan by kinds finds what the sets say. -/
theorem scan_eq (hg : g.WellFormed) (h : Seeded g first) {passes : Bool}
    (hpasses : passes = true ∨ Symbol.epsilon ∉ xs) (hxs : ∀ x ∈ xs, x < g.size) :
    scan g passes first xs = .ok (first.ofSequence xs) := by
  induction xs with
  | nil => rfl
  | cons x xs ih =>
    have hx := hxs x List.mem_cons_self
    have hrest := ih (hpasses.imp_right fun hnot hmem => hnot (List.mem_cons_of_mem x hmem))
      fun y hy => hxs y (List.mem_cons_of_mem x hy)
    have hlt : x < first.length := by rwa [h.length_eq]
    have hvanishing : first.vanishing x = true ↔ Symbol.epsilon ∈ first.get x :=
      SymbolSets.vanishing_iff
    unfold scan SymbolSets.ofSequence
    rw [kindOf_eq hx, ok_bind]
    cases hkind : g.kind x with
    | nonTerminal =>
      simp only
      rw [read_get hlt, ok_bind]
      by_cases hnil : Symbol.epsilon ∈ first.get x
      · rw [if_pos hnil, if_pos (hvanishing.2 hnil), hrest]
        rfl
      · rw [if_neg hnil, if_neg (mt hvanishing.1 hnil), erase_epsilon hnil]
        rfl
    | epsilon =>
      -- only the scan that passes over `ε` meets it
      obtain rfl := hg.kind_eq_epsilon.1 hkind
      have hself := h.self hx (by rw [hkind]; decide)
      have hpass : passes = true := hpasses.resolve_right fun hnot => hnot List.mem_cons_self
      have hnil : Symbol.epsilon ∈ first.get Symbol.epsilon := by rw [hself]; simp
      simp only
      rw [if_pos hpass, if_pos (hvanishing.2 hnil), hrest, hself]
      have hnone : (SymbolSet.singleton Symbol.epsilon).erase Symbol.epsilon ∪
          (first.ofSequence xs).1 = (first.ofSequence xs).1 := by
        apply SymbolSet.ext
        intro t
        simp
      rw [hnone]
    | terminal | endMarker =>
      have hself := h.self hx (by rw [hkind]; decide)
      have hne : x ≠ Symbol.epsilon := fun heq => by
        rw [hg.kind_eq_epsilon.2 heq] at hkind
        cases hkind
      have hnil : Symbol.epsilon ∉ first.get x := by
        rw [hself, SymbolSet.mem_singleton]
        exact hne.symm
      simp only
      rw [if_neg (mt hvanishing.1 hnil), hself]
      rfl

theorem firstOfRule_eq (hg : g.WellFormed) (h : Seeded g first) (hr : r ∈ g.rules) :
    firstOfRule g first r = .ok (Grammar.firstOfRight first r.right) := by
  unfold firstOfRule Grammar.firstOfRight
  by_cases hempty : r.right.isEmpty = true
  · rw [if_pos hempty, List.isEmpty_iff.1 hempty]
    rfl
  · have hepsilon : Symbol.epsilon ∉ r.right :=
      fun hmem => hg.ne_epsilon_of_mem_right hr hmem rfl
    rw [if_neg hempty, scan_eq hg h (.inr hepsilon) fun _ hx => hg.lt_size_of_mem_right hr hx]
    rfl

theorem firstSweep_eq (hg : g.WellFormed) (h : Seeded g first) :
    firstSweep g first = .ok (g.firstSweep first) ∧ Seeded g (g.firstSweep first) := by
  apply foldlM_eq_ok (Seeded g) _ h
  intro sets hsets r hr
  have hkind := hg.kind_left hr
  have hlt : r.left < sets.length := by
    rw [hsets.length_eq]
    exact Grammar.lt_size_of_nonTerminal hkind
  rw [firstOfRule_eq hg hsets hr, ok_bind, update_add hlt]
  exact ⟨rfl, hsets.add hkind _⟩

/-- After the entries of the first symbols, the sets of the others are empty. -/
theorem foldlM_firstSeed (entries : List Entry) (done : SymbolSets) :
    (entries.zipIdx done.length).foldlM
      (fun sets (entry, x) =>
        if entry.kind = .nonTerminal then return sets else update sets x (.insert x))
      (done ++ List.replicate entries.length ∅)
    = (.ok (done ++ (entries.zipIdx done.length).map fun (entry, x) =>
        if entry.kind = .nonTerminal then ∅ else .singleton x) : Except Fault SymbolSets) := by
  induction entries generalizing done with
  | nil => rfl
  | cons entry entries ih =>
    rw [List.zipIdx_cons, List.foldlM_cons, List.map_cons, List.length_cons, List.replicate_succ]
    simp only
    -- the set of this symbol joins those that are done
    by_cases hkind : entry.kind = .nonTerminal
    · have hrest := ih (done ++ [∅])
      rw [List.length_append, List.append_assoc, List.append_assoc] at hrest
      rw [if_pos hkind, if_pos hkind, pure_eq_ok, ok_bind]
      exact hrest
    · have hrest := ih (done ++ [.singleton done.length])
      rw [List.length_append, List.append_assoc, List.append_assoc] at hrest
      rw [if_neg hkind, if_neg hkind, update_append_cons, ok_bind]
      exact hrest

theorem firstSeed_eq : firstSeed g = .ok g.firstSeed := by
  have hfold := foldlM_firstSeed g.symbols []
  unfold firstSeed
  refine hfold.trans (congrArg Except.ok ?_)
  unfold Grammar.firstSeed
  rw [List.nil_append]
  apply List.ext_getElem?
  intro x
  rw [List.getElem?_map, List.getElem?_map, List.getElem?_zipIdx]
  rcases Nat.lt_or_ge x g.size with hlt | hge
  · obtain ⟨entry, hentry⟩ : ∃ entry, g.symbols[x]? = some entry :=
      ⟨_, List.getElem?_eq_getElem hlt⟩
    have hkind : g.kind x = entry.kind := by
      unfold Grammar.kind
      rw [hentry]
      rfl
    rw [List.getElem?_range hlt, hentry, Option.map_some, Option.map_some, Option.map_some, hkind,
      List.length_nil, Nat.zero_add]
  · rw [List.getElem?_eq_none hge, List.getElem?_eq_none (by simpa using hge)]
    rfl

/-- FIRST is computed without a fault. -/
theorem first_eq (hg : g.WellFormed) : Checked.first g = .ok g.first := by
  unfold Checked.first
  rw [firstSeed_eq, ok_bind]
  exact saturate_eq (Seeded g) (fun _ h => firstSweep_eq hg h) seeded_firstSeed

/-! ### FOLLOW -/

theorem followSeed_eq (hg : g.WellFormed) : followSeed g = .ok g.followSeed := by
  unfold followSeed Grammar.followSeed
  cases hstart : g.start? with
  | none =>
    have hnone : (List.range g.size).map
        (fun x => if (none : Option Symbol) = some x then SymbolSet.singleton Symbol.endMark else ∅)
          = (List.range g.size).map fun _ => ∅ :=
      List.map_congr_left fun x _ => if_neg fun h => by cases h
    rw [hnone, List.map_const', List.length_range]
    rfl
  | some start =>
    have hlt := Grammar.lt_size_of_nonTerminal (hg.kind_start hstart)
    simp only
    rw [update_of_lt (by rwa [List.length_replicate])]
    refine congrArg Except.ok (List.ext_getElem? fun x => ?_)
    rw [List.getElem?_modify, List.getElem?_map, List.getElem?_replicate]
    rcases Nat.lt_or_ge x g.size with hx | hge
    · rw [List.getElem?_range hx, if_pos hx]
      by_cases heq : start = x
      · simp [heq, SymbolSet.singleton]
      · simp [heq]
    · rw [List.getElem?_eq_none (by simpa using hge), if_neg (Nat.not_lt.2 hge)]
      rfl

/-- What an occurrence adds. -/
theorem followAt_eq (hg : g.WellFormed) (h : Seeded g first) (hr : r ∈ g.rules)
    {follow : SymbolSets} (hlength : follow.length = g.size) {i : Nat}
    (hx : r.shown[i]? = some x) : followAt g first r follow x i = .ok
      (if g.kind x = .nonTerminal then
        follow.add x (Grammar.followAt first follow ⟨r.left, x, r.shown.drop (i + 1)⟩)
      else follow) := by
  have hshown := hg.lt_size_of_mem_shown hr
  have hlt := hshown x (List.mem_of_getElem? hx)
  have hplace : i < r.shown.length := (List.getElem?_eq_some_iff.1 hx).1
  unfold followAt
  rw [kindOf_eq hlt, ok_bind]
  by_cases hkind : g.kind x = .nonTerminal
  · have hleft := hg.lt_size_of_left hr
    have hscan : scan g true first (r.shown.drop (i + 1))
        = .ok (first.ofSequence (r.shown.drop (i + 1))) :=
      scan_eq hg h (.inl rfl) fun y hy => hshown y (List.mem_of_mem_drop hy)
    rw [if_pos hkind, if_pos hkind, readFrom_of_le hplace, ok_bind, hscan, ok_bind]
    unfold Grammar.followAt
    simp only
    split
    · rw [read_get (by rwa [hlength]), ok_bind, update_add (by rwa [hlength])]
    · rw [update_add (by rwa [hlength])]
  · rw [if_neg hkind, if_neg hkind]
    rfl

/-- A pass over the places of a right side goes through its occurrences. -/
theorem foldl_occurrencesIn {left : Symbol} (before : List Symbol) {follow : SymbolSets} :
    (xs.zipIdx before.length).foldl
      (fun sets (x, i) =>
        if g.kind x = .nonTerminal then
          sets.add x (Grammar.followAt first sets ⟨left, x, (before ++ xs).drop (i + 1)⟩)
        else sets) follow
    = (g.occurrencesIn left xs).foldl
        (fun sets o => sets.add o.symbol (Grammar.followAt first sets o)) follow := by
  induction xs generalizing before follow with
  | nil => rfl
  | cons x xs ih =>
    have hrest := fun follow => @ih (before ++ [x]) follow
    simp only [List.length_append, List.length_singleton, List.append_assoc,
      List.singleton_append] at hrest
    have hdrop : (before ++ x :: xs).drop (before.length + 1) = xs := by
      rw [List.drop_append, List.drop_eq_nil_of_le (by omega)]
      simp
    rw [List.zipIdx_cons, List.foldl_cons]
    unfold Grammar.occurrencesIn
    simp only
    by_cases hkind : g.kind x = .nonTerminal
    · rw [if_pos hkind, if_pos hkind, List.foldl_cons, hdrop]
      exact hrest _
    · rw [if_neg hkind, if_neg hkind]
      exact hrest _

/-- The rule that vanishes has no occurrence, as it is shown or not. -/
theorem occurrencesIn_shown (hg : g.WellFormed) {left : Symbol} :
    g.occurrencesIn left r.shown = g.occurrencesIn left r.right := by
  unfold Rule.shown
  split
  · next hempty =>
    have hkind : ¬g.kind Symbol.epsilon = .nonTerminal := by rw [hg.kind_epsilon]; decide
    rw [List.isEmpty_iff.1 hempty]
    unfold Grammar.occurrencesIn
    rw [if_neg hkind]
    rfl
  · rfl

theorem followSweep_eq (hg : g.WellFormed) (h : Seeded g first) {follow : SymbolSets}
    (hlength : follow.length = g.size) :
    followSweep g first follow = .ok (g.followSweep first follow) ∧
      (g.followSweep first follow).length = g.size := by
  unfold followSweep Grammar.followSweep Grammar.occurrences
  rw [List.foldl_flatMap]
  apply foldlM_eq_ok (fun sets : SymbolSets => sets.length = g.size) _ hlength
  intro sets hsets r hr
  -- the places of the right side, one by one
  have hplace : ∀ sets : SymbolSets, sets.length = g.size → ∀ xi ∈ r.shown.zipIdx,
      followAt g first r sets xi.1 xi.2 = .ok (if g.kind xi.1 = .nonTerminal then
        sets.add xi.1 (Grammar.followAt first sets ⟨r.left, xi.1, r.shown.drop (xi.2 + 1)⟩)
        else sets) ∧
      (if g.kind xi.1 = .nonTerminal then
        sets.add xi.1 (Grammar.followAt first sets ⟨r.left, xi.1, r.shown.drop (xi.2 + 1)⟩)
        else sets).length = g.size := by
    intro sets hsets xi hxi
    refine ⟨followAt_eq hg h hr hsets (List.mem_zipIdx_iff_getElem?.1 hxi), ?_⟩
    split
    · rw [SymbolSets.length_add, hsets]
    · exact hsets
  obtain ⟨hplaces, hlast⟩ := foldlM_eq_ok _ hplace hsets
  have hpass := @foldl_occurrencesIn g first r.shown r.left [] sets
  rw [occurrencesIn_shown hg] at hpass
  rw [← hpass]
  exact ⟨hplaces, hlast⟩

/-- FOLLOW is computed without a fault. -/
theorem follow_eq (hg : g.WellFormed) :
    Checked.follow g g.first.1 = .ok (g.follow g.first.1) := by
  unfold Checked.follow
  rw [followSeed_eq hg, ok_bind]
  exact saturate_eq (fun sets : SymbolSets => sets.length = g.size)
    (fun _ h => followSweep_eq hg (seeded_first hg) h) Grammar.length_followSeed

end Predictive.Checked
