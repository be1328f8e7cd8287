import Mathlib.Data.List.Basic
import Predictive.Checked.Access
import Predictive.Proofs.Grammar.WellFormed

/-! # When a look-up succeeds

    A look-up ends with the fault that the definitions without look-ups report
    for its number (`nameOf_guarded`, `ruleTextAt_guarded`), so what is made of
    look-ups ends with the first of their faults (`guarded_bind`,
    `mapM_guarded`). With all numbers in range there is none (`mapM_eq_ok`), nor
    is there one in a loop whose turns keep them in range (`foldlM_eq_ok`).
-/

namespace Predictive.Checked

variable {α β : Type} {xs : List α} {i : Nat} {fault fault' : Option Fault}

/-! ### Sequences of look-ups -/

@[simp] theorem ok_bind (a : α) (f : α → Except Fault β) : (Except.ok a >>= f) = f a := rfl

@[simp] theorem pure_eq_ok (a : α) : (pure a : Except Fault α) = .ok a := rfl

theorem guarded_eq_ok (h : fault = none) (a : α) : guarded fault a = .ok a :=
  guarded_eq_ok_iff.2 ⟨h, rfl⟩

/-- The fault of a sequence is the first of its faults. -/
theorem guarded_bind {a : α} {b : β} {f : α → Except Fault β} (h : f a = guarded fault' b) :
    (guarded fault a >>= f) = guarded (fault <|> fault') b := by
  cases fault with
  | none => exact h
  | some _ => rfl

/-- What is only made of a result has no fault of its own. -/
theorem guarded_map (fault : Option Fault) (a : α) (f : α → β) :
    (guarded fault a >>= fun a => pure (f a)) = guarded fault (f a) := by
  cases fault <;> rfl

/-- The fault of a map is the first of the faults of its calls. -/
theorem mapM_guarded {f : α → Except Fault β} {fault : α → Option Fault} {value : α → β}
    (h : ∀ x ∈ xs, f x = guarded (fault x) (value x)) :
    xs.mapM f = guarded (xs.findSome? fault) (xs.map value) := by
  induction xs with
  | nil => rfl
  | cons x xs ih =>
    have hx := h x List.mem_cons_self
    have hxs := ih fun y hy => h y (List.mem_cons_of_mem x hy)
    rw [List.mapM_cons, hx, hxs, List.findSome?_cons]
    cases fault x with
    | none => exact guarded_map _ _ _
    | some _ => rfl

/-- A map is total if every call is. -/
theorem mapM_eq_ok {f : α → Except Fault β} {g : α → β} (h : ∀ x ∈ xs, f x = .ok (g x)) :
    xs.mapM f = .ok (xs.map g) := by
  have hnone : xs.findSome? (fun _ => (none : Option Fault)) = none :=
    List.findSome?_eq_none_iff.2 fun _ _ => rfl
  exact (mapM_guarded h).trans (guarded_eq_ok hnone _)

/-- A fold is total if every call is on what the calls before it can leave. -/
theorem foldlM_eq_ok {f : β → α → Except Fault β} {g : β → α → β} (inv : β → Prop)
    (h : ∀ b, inv b → ∀ x ∈ xs, f b x = .ok (g b x) ∧ inv (g b x)) {b : β} (hb : inv b) :
    xs.foldlM f b = .ok (xs.foldl g b) ∧ inv (xs.foldl g b) := by
  induction xs generalizing b with
  | nil => exact ⟨rfl, hb⟩
  | cons x xs ih =>
    obtain ⟨hx, hinv⟩ := h b hb x List.mem_cons_self
    obtain ⟨hxs, hlast⟩ := ih (fun c hc y hy => h c hc y (List.mem_cons_of_mem x hy)) hinv
    rw [List.foldlM_cons, hx, ok_bind, hxs]
    exact ⟨rfl, hlast⟩

/-! ### One look-up -/

theorem read_of_getElem? {x : α} (h : xs[i]? = some x) : read xs i = .ok x := by
  unfold read
  rw [h]

/-- The fault of a number out of range is all that can go wrong in what is made
    of an element. -/
theorem read_bind {b : β} {f : α → Except Fault β} (h : ∀ x, xs[i]? = some x → f x = .ok b) :
    (read xs i >>= f) = guarded (Fault.ofIndex? xs.length i) b := by
  unfold read Fault.ofIndex?
  by_cases hi : i < xs.length
  · have here := List.getElem?_eq_getElem hi
    rw [here, if_pos hi]
    exact h _ here
  · rw [List.getElem?_eq_none (Nat.not_lt.1 hi), if_neg hi]
    rfl

theorem readFrom_of_le (h : i ≤ xs.length) : readFrom xs i = .ok (xs.drop i) :=
  guarded_eq_ok (Fault.ofStart?_eq_none.2 h) _

theorem update_of_lt (h : i < xs.length) (f : α → α) : update xs i f = .ok (xs.modify i f) := by
  unfold update
  rw [read_of_getElem? (List.getElem?_eq_getElem h), ok_bind, List.modify_eq_set_get f h]
  rfl

theorem update_append_left (h : i < xs.length) (ys : List α) (f : α → α) :
    update (xs ++ ys) i f = .ok (xs.modify i f ++ ys) := by
  unfold update
  have here : (xs ++ ys)[i]? = some xs[i] := by
    rw [List.getElem?_append_left h]
    exact List.getElem?_eq_getElem h
  rw [read_of_getElem? here, ok_bind, List.set_append_left _ _ h, List.modify_eq_set_get f h]
  rfl

theorem update_append_cons (before : List α) (x : α) (after : List α) (f : α → α) :
    update (before ++ x :: after) before.length f = .ok (before ++ f x :: after) := by
  unfold update
  have here : (before ++ x :: after)[before.length]? = some x := by
    rw [List.getElem?_append_right (Nat.le_refl _), Nat.sub_self]
    rfl
  rw [read_of_getElem? here, ok_bind, List.set_append_right _ _ (Nat.le_refl _), Nat.sub_self]
  rfl

/-! ### Symbols and rules -/

variable {g : Grammar} {x : Symbol} {r : Rule} {ys : List Symbol}

theorem nameOf_guarded (g : Grammar) (x : Symbol) :
    nameOf g x = guarded (g.symbolFault? x) (g.name x) := by
  apply read_bind
  intro entry hentry
  unfold Grammar.name
  rw [hentry]
  rfl

theorem phrase_guarded (g : Grammar) (ys : List Symbol) :
    phrase g ys = guarded (g.symbolsFault? ys) (g.phrase ys) := by
  have hnames : namesOf g ys = guarded (g.symbolsFault? ys) (g.names ys) :=
    mapM_guarded fun x _ => nameOf_guarded g x
  unfold phrase
  rw [hnames]
  exact guarded_map _ _ _

theorem symbolsFault?_eq_none (hys : ∀ x ∈ ys, x < g.size) : g.symbolsFault? ys = none :=
  List.findSome?_eq_none_iff.2 fun x hx => Fault.ofIndex?_eq_none.2 (hys x hx)

theorem nameOf_eq (hx : x < g.size) : nameOf g x = .ok (g.name x) := by
  rw [nameOf_guarded]
  exact guarded_eq_ok (Fault.ofIndex?_eq_none.2 hx) _

theorem kindOf_eq (hx : x < g.size) : kindOf g x = .ok (g.kind x) := by
  unfold kindOf Grammar.kind
  rw [read_of_getElem? (List.getElem?_eq_getElem hx), List.getElem?_eq_getElem hx]
  rfl

theorem namesOf_eq (hys : ∀ x ∈ ys, x < g.size) : namesOf g ys = .ok (g.names ys) :=
  mapM_eq_ok fun x hx => nameOf_eq (hys x hx)

theorem phrase_eq (hys : ∀ x ∈ ys, x < g.size) : phrase g ys = .ok (g.phrase ys) := by
  rw [phrase_guarded]
  exact guarded_eq_ok (symbolsFault?_eq_none hys) _

theorem ruleText_eq (hg : g.WellFormed) (hr : r ∈ g.rules) :
    ruleText g r = .ok (g.ruleText r) := by
  unfold ruleText
  rw [nameOf_eq (hg.lt_size_of_left hr),
    phrase_eq (hg.lt_size_of_mem_shown hr)]
  rfl

theorem ruleTextAt_guarded (hg : g.WellFormed) (i : Nat) :
    ruleTextAt g i = guarded (g.ruleFault? i) (g.ruleTextAt i) := by
  apply read_bind
  intro r hr
  unfold Grammar.ruleTextAt
  rw [ruleText_eq hg (List.mem_of_getElem? hr), hr]
  rfl

theorem ruleTextAt_eq (hg : g.WellFormed) (hi : i < g.rules.length) :
    ruleTextAt g i = .ok (g.ruleTextAt i) := by
  rw [ruleTextAt_guarded hg]
  exact guarded_eq_ok (Fault.ofIndex?_eq_none.2 hi) _

end Predictive.Checked
