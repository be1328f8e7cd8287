import Predictive.Checked.Tables
import Predictive.Proofs.Checked.Sets
import Predictive.Proofs.Table

/-! # The tables are filled without a fault

    A position that was found among the rows or columns is in range in a grid
    that has a cell for each of them. While the LL(1) table is filled its cells
    hold the predictions made so far (`cellsOf`), so at the end they hold all.

    Main results: `table_eq` and `recovery_eq`; the look-ups in a tabulated
    function are total (`cell_eq`, `rowOf_eq`, `conflicts_eq`).
-/

namespace Predictive.Checked

variable {α : Type} {g : Grammar} {first follow : SymbolSets} {x t : Symbol} {i : Nat}
variable {xs rows columns : List Symbol} {r : Rule} {ps : List Prediction}

/-! ### Positions -/

/-- A position among symbols is one among what is listed for them. -/
theorem read_map (h : xs.idxOf? x = some i) (f : Symbol → α) : read (xs.map f) i = .ok (f x) := by
  apply read_of_getElem?
  rw [List.getElem?_map, Grid.getElem?_of_idxOf? h]
  rfl

theorem set_map (hnodup : xs.Nodup) (h : xs.idxOf? x = some i) (f : Symbol → α) (a : α) :
    (xs.map f).set i a = xs.map fun y => if y = x then a else f y := by
  have hi := Grid.getElem?_of_idxOf? h
  apply List.ext_getElem?
  intro j
  rw [List.getElem?_set, List.getElem?_map, List.getElem?_map, List.length_map]
  by_cases hj : i = j
  · subst hj
    have hlt : i < xs.length := (List.getElem?_eq_some_iff.1 hi).1
    rw [if_pos rfl, if_pos hlt, hi, Option.map_some, if_pos rfl]
  · rw [if_neg hj]
    cases hy : xs[j]? with
    | none => rfl
    | some y =>
      -- another place holds another symbol
      have hne : y ≠ x := by
        intro heq
        subst heq
        have hlt : i < xs.length := (List.getElem?_eq_some_iff.1 hi).1
        exact hj ((List.getElem?_inj hlt hnodup).1 (hi.trans hy.symm))
      rw [Option.map_some, Option.map_some, if_neg hne]

theorem update_map (hnodup : xs.Nodup) (h : xs.idxOf? x = some i) (f : Symbol → α) (u : α → α) :
    update (xs.map f) i u = .ok (xs.map fun y => if y = x then u (f x) else f y) := by
  unfold update
  rw [read_map h, ok_bind, set_map hnodup h]
  rfl

/-! ### Filling -/

/-- What these predictions bring to a cell. -/
def cellOf (ps : List Prediction) (x t : Symbol) : List Nat :=
  (ps.filter (·.left == x)).flatMap fun p => List.replicate (p.lookaheads.count t) p.rule

/-- All cells with these predictions. -/
def cellsOf (g : Grammar) (ps : List Prediction) : List (List (List Nat)) :=
  g.nonTerminals.map fun x => g.lookaheads.map (cellOf ps x)

theorem cellOf_concat (p : Prediction) : cellOf (ps ++ [p]) x t = cellOf ps x t ++
    if x = p.left then List.replicate (p.lookaheads.count t) p.rule else [] := by
  unfold cellOf
  rw [List.filter_append, List.flatMap_append]
  by_cases hx : x = p.left
  · simp [hx]
  · simp [hx, Ne.symm hx]

/-- A row gets a rule once for each time that it is entered. -/
theorem foldlM_enter (hnodup : columns.Nodup) (rule : Nat) (ts : List Symbol)
    (f : Symbol → List Nat) : ts.foldlM (enter columns rule) (columns.map f)
      = .ok (columns.map fun t => f t ++ List.replicate (ts.count t) rule) := by
  induction ts generalizing f with
  | nil => simp
  | cons t ts ih =>
    rw [List.foldlM_cons]
    unfold enter
    cases hplace : columns.idxOf? t with
    | none =>
      -- no cell counts a symbol without a column
      have hmem := List.idxOf?_eq_none_iff.1 hplace
      simp only
      rw [pure_eq_ok, ok_bind]
      refine (ih f).trans (congrArg Except.ok (List.map_congr_left fun u hu => ?_))
      have hne : t ≠ u := fun heq => hmem (heq ▸ hu)
      rw [List.count_cons_of_ne hne]
    | some j =>
      simp only
      rw [update_map hnodup hplace, ok_bind]
      refine (ih _).trans (congrArg Except.ok (List.map_congr_left fun u _ => ?_))
      by_cases hu : u = t
      · rw [if_pos hu, hu, List.count_cons_self, List.append_assoc, List.replicate_succ]
        rfl
      · rw [if_neg hu, List.count_cons_of_ne (Ne.symm hu)]

/-- The rule that vanishes is scanned as `ε`. -/
theorem scan_shown (hg : g.WellFormed) (h : Seeded g first) (hr : r ∈ g.rules) :
    scan g true first r.shown = .ok (first.ofSequence r.right) := by
  unfold Rule.shown
  split
  · next hempty =>
    rw [List.isEmpty_iff.1 hempty]
    unfold scan
    rw [kindOf_eq hg.epsilon_lt_size, ok_bind, hg.kind_epsilon]
    rfl
  · exact scan_eq hg h (.inl rfl) fun _ hx => hg.lt_size_of_mem_right hr hx

/-- Entering a rule adds its prediction. -/
theorem fill_eq (hg : g.WellFormed) (h : Seeded g first) (hfollow : follow.length = g.size)
    (hr : r ∈ g.rules) (rule : Nat) : fill g first follow (cellsOf g ps) r rule
      = .ok (cellsOf g (ps ++ [⟨rule, r.left, Grammar.lookaheadsOf first follow r⟩])) := by
  have hkind := hg.kind_left hr
  have hlt : r.left < follow.length := by
    rw [hfollow]
    exact Grammar.lt_size_of_nonTerminal hkind
  obtain ⟨i, hi⟩ : ∃ i, g.nonTerminals.idxOf? r.left = some i := by
    apply Option.ne_none_iff_exists'.1
    exact mt List.idxOf?_eq_none_iff.1 (not_not_intro (Grammar.mem_nonTerminals.2 hkind))
  have hread : read (cellsOf g ps) i = .ok (g.lookaheads.map (cellOf ps r.left)) := read_map hi _
  have henter := foldlM_enter hg.nodup_lookaheads rule
    (Grammar.lookaheadsOf first follow r) (cellOf ps r.left)
  -- only the row of the left side becomes another one
  have hset : (cellsOf g ps).set i (g.lookaheads.map fun t => cellOf ps r.left t ++
        List.replicate ((Grammar.lookaheadsOf first follow r).count t) rule)
      = cellsOf g (ps ++ [⟨rule, r.left, Grammar.lookaheadsOf first follow r⟩]) := by
    have hrows : g.nonTerminals.Nodup := Grammar.nodup_ofKind
    unfold cellsOf
    rw [set_map hrows hi]
    refine List.map_congr_left fun x _ => ?_
    by_cases hx : x = r.left
    · rw [if_pos hx, hx]
      exact List.map_congr_left fun t _ => by rw [cellOf_concat, if_pos rfl]
    · rw [if_neg hx]
      exact List.map_congr_left fun t _ => by rw [cellOf_concat, if_neg hx, List.append_nil]
  unfold fill
  rw [hi]
  simp only
  rw [hread, ok_bind, scan_shown hg h hr, ok_bind, read_get hlt, ok_bind]
  refine (congrArg (· >>= _) henter).trans ?_
  rw [ok_bind, hset]
  rfl

theorem foldlM_fill (hg : g.WellFormed) (h : Seeded g first) (hfollow : follow.length = g.size)
    {rules : List (Rule × Nat)} (hrules : ∀ ri ∈ rules, ri.1 ∈ g.rules) :
    rules.foldlM (fun cells (r, i) => fill g first follow cells r i) (cellsOf g ps)
      = .ok (cellsOf g (ps ++ rules.map fun (r, i) =>
          ⟨i, r.left, Grammar.lookaheadsOf first follow r⟩)) := by
  induction rules generalizing ps with
  | nil => rw [List.map_nil, List.append_nil]; rfl
  | cons ri rules ih =>
    have hfirst := @fill_eq g first follow ri.1 ps hg h hfollow (hrules ri List.mem_cons_self) ri.2
    have hrest := fun ps => @ih ps fun si hsi => hrules si (List.mem_cons_of_mem ri hsi)
    rw [List.foldlM_cons, List.map_cons, List.append_cons]
    exact (congrArg (· >>= _) hfirst).trans (hrest _)

/-- The LL(1) table is filled without a fault. -/
theorem table_eq (hg : g.WellFormed) (h : Seeded g first) (hfollow : follow.length = g.size) :
    table g first follow = .ok (g.table first follow) := by
  have hblank : List.replicate g.nonTerminals.length (List.replicate g.lookaheads.length [])
      = cellsOf g [] := by
    unfold cellsOf
    rw [← List.map_const', ← List.map_const']
    rfl
  have hrules : ∀ ri ∈ g.rules.zipIdx, ri.1 ∈ g.rules :=
    fun ri hri => List.mem_of_getElem? (List.mem_zipIdx_iff_getElem?.1 hri)
  unfold table
  simp only
  rw [hblank, foldlM_fill hg h hfollow hrules]
  rfl

/-- The advice table is filled without a fault. -/
theorem recovery_eq (hfirst : first.length = g.size) (hfollow : follow.length = g.size) :
    recovery g first follow = .ok (g.recovery first follow) := by
  unfold recovery
  have hrows : ∀ x ∈ g.nonTerminals, (do
      let begins ← read first x
      let after ← read follow x
      return g.lookaheads.map fun t =>
        if t ∈ after then Advice.extract else if t ∉ begins then .explore else .proceed)
          = .ok (g.lookaheads.map (Advice.choose first follow x)) := by
    intro x hx
    have hlt := Grammar.lt_size_of_mem_nonTerminals hx
    rw [read_get (by rwa [hfirst]), ok_bind, read_get (by rwa [hfollow]), ok_bind]
    refine congrArg Except.ok (List.map_congr_left fun t _ => ?_)
    unfold Advice.choose
    rw [ite_not]
  rw [mapM_eq_ok hrows]
  rfl

/-! ### Look-ups -/

variable {f : Symbol → Symbol → α} {u : Symbol}

theorem rowOf_eq : rowOf (Grid.tabulate rows columns f) x
    = .ok ((Grid.tabulate rows columns f).row? x) := by
  unfold rowOf Grid.row?
  cases hi : (Grid.tabulate rows columns f).rows.idxOf? x with
  | none => rfl
  | some i =>
    have hrow : read (Grid.tabulate rows columns f).cells i = .ok _ := read_map hi _
    have hx : rows[i]? = some x := Grid.getElem?_of_idxOf? hi
    have here : (Grid.tabulate rows columns f).cells[i]? = some (columns.map (f x)) := by
      show (rows.map _)[i]? = _
      rw [List.getElem?_map, hx]
      rfl
    simp only
    rw [hrow, Option.bind_some, here]
    rfl

theorem cell_eq : cell (Grid.tabulate rows columns f) x u
    = .ok ((Grid.tabulate rows columns f).get? x u) := by
  rw [Grid.get?_tabulate]
  unfold cell
  cases hi : (Grid.tabulate rows columns f).rows.idxOf? x with
  | none =>
    rw [if_neg fun h => List.idxOf?_eq_none_iff.1 hi h.1]
    rfl
  | some i =>
    cases hj : (Grid.tabulate rows columns f).columns.idxOf? u with
    | none =>
      rw [if_neg fun h => List.idxOf?_eq_none_iff.1 hj h.2]
      rfl
    | some j =>
      have hx : x ∈ rows := List.mem_of_getElem? (Grid.getElem?_of_idxOf? hi)
      have hu : u ∈ columns := List.mem_of_getElem? (Grid.getElem?_of_idxOf? hj)
      have hrow : read (Grid.tabulate rows columns f).cells i = .ok _ := read_map hi _
      have hcontent : read (columns.map (f x)) j = .ok (f x u) := read_map hj _
      simp only
      rw [hrow, ok_bind, hcontent, ok_bind, if_pos ⟨hx, hu⟩]
      rfl

theorem rulesAt_eq {f : Symbol → Symbol → List Nat} :
    rulesAt (Grid.tabulate rows columns f) x u
      = .ok (Table.rulesAt (Grid.tabulate rows columns f) x u) := by
  unfold rulesAt
  rw [cell_eq]
  rfl

/-- Mapping over places without looking at them. -/
theorem map_zipIdx {β : Type} (xs : List Symbol) (h : Symbol → β) :
    (xs.zipIdx.map fun xi => h xi.1) = xs.map h := by
  conv_rhs => rw [← List.zipIdx_map_fst 0 xs]
  rw [List.map_map]
  rfl

/-- The conflicts in the row of `x`. -/
def rowConflicts (f : Symbol → Symbol → List Nat) (columns : List Symbol) (x : Symbol) :
    List Conflict :=
  columns.flatMap fun u => if (f x u).length > 1 then [⟨x, u, f x u⟩] else []

theorem conflicts_tabulate {f : Symbol → Symbol → List Nat} :
    Table.conflicts (Grid.tabulate rows columns f) = rows.flatMap (rowConflicts f columns) := by
  unfold Table.conflicts
  rw [Grid.entries_tabulate, List.filter_flatMap, List.map_flatMap]
  refine List.flatMap_congr fun x _ => ?_
  unfold rowConflicts
  induction columns with
  | nil => rfl
  | cons u columns ih =>
    rw [List.flatMap_cons, List.map_cons, ← ih]
    by_cases hu : (f x u).length > 1
    · simp [hu]
    · simp [hu]

theorem conflictsIn_eq {f : Symbol → Symbol → List Nat} (hx : rows[i]? = some x) :
    conflictsIn (Grid.tabulate rows columns f) x i = .ok (rowConflicts f columns x) := by
  have hrow : read (Grid.tabulate rows columns f).cells i = .ok (columns.map (f x)) := by
    apply read_of_getElem?
    show (rows.map _)[i]? = _
    rw [List.getElem?_map, hx]
    rfl
  have hcells : ∀ uj ∈ columns.zipIdx, (do
      let row ← read (Grid.tabulate rows columns f).cells i
      let rules ← read row uj.2
      return if rules.length > 1 then [(⟨x, uj.1, rules⟩ : Conflict)] else [])
        = .ok (if (f x uj.1).length > 1 then [⟨x, uj.1, f x uj.1⟩] else []) := by
    intro uj huj
    have hcell : read (columns.map (f x)) uj.2 = .ok (f x uj.1) := by
      apply read_of_getElem?
      rw [List.getElem?_map, List.mem_zipIdx_iff_getElem?.1 huj]
      rfl
    rw [hrow, ok_bind, hcell, ok_bind]
    rfl
  unfold conflictsIn
  refine (congrArg (· >>= _) (mapM_eq_ok hcells)).trans ?_
  rw [ok_bind, map_zipIdx columns fun u =>
    if (f x u).length > 1 then [(⟨x, u, f x u⟩ : Conflict)] else []]
  rfl

theorem conflicts_eq {f : Symbol → Symbol → List Nat} : conflicts (Grid.tabulate rows columns f)
    = .ok (Table.conflicts (Grid.tabulate rows columns f)) := by
  have hrows : ∀ xi ∈ rows.zipIdx, conflictsIn (Grid.tabulate rows columns f) xi.1 xi.2
      = .ok (rowConflicts f columns xi.1) :=
    fun xi hxi => conflictsIn_eq (List.mem_zipIdx_iff_getElem?.1 hxi)
  unfold conflicts
  refine (congrArg (· >>= _) (mapM_eq_ok hrows)).trans ?_
  rw [ok_bind, map_zipIdx rows (rowConflicts f columns), conflicts_tabulate]
  rfl

end Predictive.Checked
