import Mathlib.Data.List.Basic
import Predictive.Json

/-! # Compact JSON is read in one way only

    The text of a value shows where the value ends, whatever comes behind it. The
    first character tells what shape the value has (`exists_lead`). A string
    ends at the first double quote that is not escaped, and what is escaped can
    be read back (`unescape?_escape`). The items of an array are taken off one by
    one, up to the bracket, which no item begins with (`intercalate_append_inj`).
    Only a number does not say where it ends: it needs something other than a
    digit behind it (`Stops`), and that is what arrays and objects put there.

    Main result: `compact_injective`.
-/

namespace Predictive.Json

variable {α : Type} {u v : List Char}

/-- The induction over values: an array or an object after all that is in it. -/
@[elab_as_elim]
theorem value_induction {motive : Json → Prop} (null : motive null)
    (bool : ∀ value, motive (bool value)) (num : ∀ value, motive (num value))
    (str : ∀ value, motive (str value))
    (arr : ∀ items, (∀ item ∈ items, motive item) → motive (arr items))
    (obj : ∀ members, (∀ m ∈ members, motive m.2) → motive (obj members)) (a : Json) :
    motive a := by
  refine Json.rec (motive_1 := motive) (motive_2 := fun items => ∀ item ∈ items, motive item)
    (motive_3 := fun members => ∀ m ∈ members, motive m.2) (motive_4 := fun m => motive m.2)
    null bool num str arr obj ?_ ?_ ?_ ?_ ?_ a
  · simp
  · intro item items hitem hitems
    exact List.forall_mem_cons.2 ⟨hitem, hitems⟩
  · simp
  · intro m members hm hmembers
    exact List.forall_mem_cons.2 ⟨hm, hmembers⟩
  · intro key value hvalue
    exact hvalue

/-! ### Strings -/

/-- The value of a hexadecimal digit in lower case. -/
def hexValue (c : Char) : Nat := if c.isDigit then c.toNat - '0'.toNat else c.toNat - 'a'.toNat + 10

/-- The character that a backslash and this letter stand for. -/
def ofLetter? (letter : Char) : Option Char :=
  [('"', '"'), ('\\', '\\'), ('b', '\x08'), ('t', '\t'), ('n', '\n'), ('f', '\x0c'),
    ('r', '\r')].lookup letter

/-- The first character of an escaped text, and what is left of the text. A
    double quote is no character of it but its end. -/
def unescape? : List Char → Option (Char × List Char)
  | '\\' :: 'u' :: '0' :: '0' :: high :: low :: rest =>
    some (Char.ofNat (16 * hexValue high + hexValue low), rest)
  | '\\' :: letter :: rest => (ofLetter? letter).map (·, rest)
  | '"' :: _ => none
  | c :: rest => some (c, rest)
  | [] => none

theorem hexValue_digitChar : ∀ n < 16, hexValue (Nat.digitChar n) = n := by decide

theorem unescape?_cons {c : Char} (hquote : c ≠ '"') (hslash : c ≠ '\\') (rest : List Char) :
    unescape? (c :: rest) = some (c, rest) := by
  unfold unescape?
  split <;> simp_all

/-- Reading takes back escaping. -/
theorem unescape?_escape (c : Char) (rest : List Char) :
    unescape? (escape c ++ rest) = some (c, rest) := by
  unfold escape
  -- seven characters have a letter
  iterate 7
    split
    · next h => subst h; rfl
  split
  · -- two digits give the number of the character
    next hcontrol =>
    have hhigh := hexValue_digitChar (c.toNat / 16) (by omega)
    have hlow := hexValue_digitChar (c.toNat % 16) (by omega)
    have hnumber : 16 * (c.toNat / 16) + c.toNat % 16 = c.toNat := Nat.div_add_mod _ _
    show some (Char.ofNat (16 * hexValue _ + hexValue _), rest) = _
    rw [hhigh, hlow, hnumber, Char.ofNat_toNat]
  · next hquote hslash _ _ _ _ _ _ => exact unescape?_cons hquote hslash rest

/-- An escaped text ends at its double quote. -/
theorem flatMap_escape_append_inj {cs ds : List Char}
    (h : cs.flatMap escape ++ '"' :: u = ds.flatMap escape ++ '"' :: v) : cs = ds ∧ u = v := by
  have hend : ∀ rest, unescape? ('"' :: rest) = none := fun _ => rfl
  induction cs generalizing ds with
  | nil =>
    cases ds with
    | nil => exact ⟨rfl, (List.cons.inj h).2⟩
    | cons d ds =>
      have hread := congrArg unescape? h
      rw [List.flatMap_cons, List.append_assoc, unescape?_escape, List.flatMap_nil,
        List.nil_append, hend] at hread
      cases hread
  | cons c cs ih =>
    rw [List.flatMap_cons, List.append_assoc] at h
    have hread := congrArg unescape? h
    rw [unescape?_escape] at hread
    cases ds with
    | nil =>
      rw [List.flatMap_nil, List.nil_append, hend] at hread
      cases hread
    | cons d ds =>
      rw [List.flatMap_cons, List.append_assoc, unescape?_escape] at hread
      obtain ⟨rfl, hrest⟩ := Prod.mk.inj (Option.some.inj hread)
      obtain ⟨rfl, huv⟩ := ih hrest
      exact ⟨rfl, huv⟩

theorem quote_append_inj {s t : String} (h : quote s ++ u = quote t ++ v) : s = t ∧ u = v := by
  unfold quote at h
  rw [List.append_assoc, List.append_assoc] at h
  obtain ⟨hchars, huv⟩ := flatMap_escape_append_inj (List.cons.inj h).2
  exact ⟨String.toList_injective hchars, huv⟩

/-! ### Numbers -/

/-- What does not begin with a digit, and so ends a number before it. -/
def Stops (rest : List Char) : Prop := ∀ c, rest.head? = some c → c.isDigit = false

theorem stops_nil : Stops [] := by
  intro c hc
  cases hc

theorem stops_cons {c : Char} (h : c.isDigit = false) : Stops (c :: u) := by
  intro d hd
  rwa [← Option.some.inj hd]

/-- The digits in front are those of the number. -/
theorem takeWhile_toDigits (n : Nat) (hu : Stops u) :
    (Nat.toDigits 10 n ++ u).takeWhile Char.isDigit = Nat.toDigits 10 n := by
  have hdigits : ∀ c ∈ Nat.toDigits 10 n, c.isDigit = true :=
    fun _ hc => Nat.isDigit_of_mem_toDigits (by decide) (by decide) hc
  have hrest : u.takeWhile Char.isDigit = [] := by
    cases u with
    | nil => rfl
    | cons c u => exact List.takeWhile_cons_of_neg (by simp [hu c rfl])
  rw [List.takeWhile_append_of_pos hdigits, hrest, List.append_nil]

theorem toDigits_append_inj {m n : Nat} (hu : Stops u) (hv : Stops v)
    (h : Nat.toDigits 10 m ++ u = Nat.toDigits 10 n ++ v) : m = n ∧ u = v := by
  have hdigits : Nat.toDigits 10 m = Nat.toDigits 10 n := by
    rw [← takeWhile_toDigits m hu, h, takeWhile_toDigits n hv]
  have hnumber : m = n := by
    rw [← @Nat.ofDigitChars_ten_toDigits m, hdigits, Nat.ofDigitChars_ten_toDigits]
  subst hnumber
  exact ⟨rfl, List.append_cancel_left h⟩

/-! ### The first character -/

/-- What a value is, without what is in it. -/
inductive Shape where
  | null
  | bool (value : Bool)
  | num
  | str
  | arr
  | obj
  deriving DecidableEq

/-- The shape of a value. -/
def shape : Json → Shape
  | null => .null
  | bool value => .bool value
  | num _ => .num
  | str _ => .str
  | arr _ => .arr
  | obj _ => .obj

/-- The shape of the values that begin with this character. -/
def Shape.ofLead? (c : Char) : Option Shape :=
  if c.isDigit then some .num
  else [('n', null), ('t', bool true), ('f', bool false), ('"', str), ('[', arr),
    ('\x7b', obj)].lookup c

theorem exists_lead (a : Json) : ∃ c cs, a.chars = c :: cs ∧ Shape.ofLead? c = some a.shape := by
  cases a with
  | null => exact ⟨_, _, rfl, rfl⟩
  | bool value => cases value <;> exact ⟨_, _, rfl, rfl⟩
  | num n =>
    obtain ⟨c, cs, hchars⟩ := List.exists_cons_of_ne_nil (@Nat.toDigits_ne_nil n 10)
    have hdigit : c.isDigit = true := by
      apply Nat.isDigit_of_mem_toDigits (b := 10) (n := n) (by decide) (by decide)
      rw [hchars]
      exact List.mem_cons_self
    refine ⟨c, cs, hchars, ?_⟩
    unfold Shape.ofLead?
    rw [if_pos hdigit]
    rfl
  | str s => exact ⟨_, _, rfl, rfl⟩
  | arr items => exact ⟨_, _, rfl, rfl⟩
  | obj members => exact ⟨_, _, rfl, rfl⟩

/-- Values with the same text, whatever is behind it, have the same shape. -/
theorem shape_eq_of_append_eq {a b : Json} (h : a.chars ++ u = b.chars ++ v) :
    a.shape = b.shape := by
  obtain ⟨c, cs, ha, hshape⟩ := exists_lead a
  obtain ⟨d, ds, hb, hshape'⟩ := exists_lead b
  rw [ha, hb] at h
  rw [(List.cons.inj h).1, hshape'] at hshape
  exact (Option.some.inj hshape).symm

/-- No value begins with what is neither a digit nor the first character of a
    shape. -/
theorem chars_append_ne_cons {c : Char} (hc : Shape.ofLead? c = none) (a : Json) :
    a.chars ++ u ≠ c :: v := by
  obtain ⟨d, ds, ha, hshape⟩ := exists_lead a
  intro h
  rw [ha] at h
  rw [(List.cons.inj h).1, hc] at hshape
  cases hshape

/-! ### Sequences -/

section Sequence

variable {f : α → List Char} {close : Char}

/-- What stands behind the first piece of a closed sequence. -/
def behind (f : α → List Char) (close : Char) (u : List Char) : List α → List Char
  | [] => close :: u
  | x :: xs => ',' :: (List.intercalate [','] ((x :: xs).map f) ++ close :: u)

theorem intercalate_cons_append (x : α) (xs : List α) :
    List.intercalate [','] ((x :: xs).map f) ++ close :: u = f x ++ behind f close u xs := by
  cases xs with
  | nil => rw [List.map_singleton, List.intercalate_singleton, behind]
  | cons y ys =>
    rw [List.map_cons, List.map_cons, List.intercalate_cons_cons, behind, List.map_cons]
    simp only [List.append_assoc, List.cons_append, List.nil_append]

theorem stops_behind (hclose : close.isDigit = false) (xs : List α) :
    Stops (behind f close u xs) := by
  cases xs with
  | nil => exact stops_cons hclose
  | cons => exact stops_cons (by decide)

/-- A sequence with commas between its pieces can be taken apart if its pieces
    can, and if none of them begins with what closes the sequence. -/
theorem intercalate_append_inj {xs ys : List α} (hclose : close.isDigit = false)
    (hcomma : close ≠ ',') (hlead : ∀ x rest rest', f x ++ rest ≠ close :: rest')
    (hpieces : ∀ x ∈ xs, ∀ y rest rest', Stops rest → Stops rest' →
      f x ++ rest = f y ++ rest' → x = y ∧ rest = rest')
    (h : List.intercalate [','] (xs.map f) ++ close :: u
      = List.intercalate [','] (ys.map f) ++ close :: v) : xs = ys ∧ u = v := by
  induction xs generalizing ys with
  | nil =>
    cases ys with
    | nil => exact ⟨rfl, (List.cons.inj h).2⟩
    | cons y ys =>
      rw [intercalate_cons_append] at h
      exact absurd h.symm (hlead y _ u)
  | cons x xs ih =>
    rw [intercalate_cons_append] at h
    cases ys with
    | nil => exact absurd h (hlead x _ v)
    | cons y ys =>
      rw [intercalate_cons_append] at h
      obtain ⟨rfl, hrest⟩ := hpieces x List.mem_cons_self y _ _ (stops_behind hclose xs)
        (stops_behind hclose ys) h
      -- the two sequences go on together or end together
      cases xs with
      | nil =>
        cases ys with
        | nil => exact ⟨rfl, (List.cons.inj hrest).2⟩
        | cons => exact absurd (List.cons.inj hrest).1 hcomma
      | cons x' xs =>
        cases ys with
        | nil => exact absurd (List.cons.inj hrest).1 hcomma.symm
        | cons y' ys =>
          obtain ⟨hxs, huv⟩ := ih (fun z hz => hpieces z (List.mem_cons_of_mem x hz))
            (List.cons.inj hrest).2
          exact ⟨congrArg (x :: ·) hxs, huv⟩

end Sequence

theorem itemChars_eq (items : List Json) :
    itemChars items = List.intercalate [','] (items.map chars) := by
  induction items with
  | nil => rfl
  | cons item items ih =>
    cases items with
    | nil => rw [itemChars, List.map_singleton, List.intercalate_singleton]
    | cons other items =>
      rw [itemChars, ih]
      · simp [List.intercalate_cons_cons]
      · simp

/-- A member of an object as it is written. -/
def memberText (m : String × Json) : List Char := quote m.1 ++ ':' :: chars m.2

theorem memberChars_eq (members : List (String × Json)) :
    memberChars members = List.intercalate [','] (members.map memberText) := by
  induction members with
  | nil => rfl
  | cons m members ih =>
    cases members with
    | nil =>
      rw [memberChars, List.map_singleton, List.intercalate_singleton]
      rfl
    | cons other members =>
      rw [memberChars, ih]
      · simp [List.intercalate_cons_cons, memberText]
      · simp

/-- A member can be taken off if its value can. -/
theorem memberText_append_inj {m m' : String × Json}
    (hvalue : m.2.chars ++ u = m'.2.chars ++ v → m.2 = m'.2 ∧ u = v)
    (h : memberText m ++ u = memberText m' ++ v) : m = m' ∧ u = v := by
  unfold memberText at h
  rw [List.append_assoc, List.append_assoc] at h
  obtain ⟨hkey, hrest⟩ := quote_append_inj h
  obtain ⟨heq, huv⟩ := hvalue (List.cons.inj hrest).2
  exact ⟨Prod.ext hkey heq, huv⟩

/-! ### Values -/

/-- A value is told apart from what comes behind it. -/
theorem chars_append_inj {a b : Json} (hu : Stops u) (hv : Stops v)
    (h : a.chars ++ u = b.chars ++ v) : a = b ∧ u = v := by
  -- a value of another shape has another first character, so one shape is left in each case
  induction a using Json.value_induction generalizing b u v with
  | null =>
    have hshape := shape_eq_of_append_eq h
    cases b with
    | null => exact ⟨rfl, List.append_cancel_left h⟩
    | _ => cases hshape
  | bool value =>
    have hshape := shape_eq_of_append_eq h
    cases b with
    | bool =>
      cases hshape
      exact ⟨rfl, List.append_cancel_left h⟩
    | _ => cases hshape
  | num n =>
    have hshape := shape_eq_of_append_eq h
    cases b with
    | num =>
      obtain ⟨rfl, huv⟩ := toDigits_append_inj hu hv h
      exact ⟨rfl, huv⟩
    | _ => cases hshape
  | str s =>
    have hshape := shape_eq_of_append_eq h
    cases b with
    | str =>
      obtain ⟨rfl, huv⟩ := quote_append_inj h
      exact ⟨rfl, huv⟩
    | _ => cases hshape
  | arr items ih =>
    have hshape := shape_eq_of_append_eq h
    cases b with
    | arr items' =>
      simp only [chars, itemChars_eq, List.cons_append, List.append_assoc, List.cons.injEq,
        true_and, List.nil_append] at h
      obtain ⟨rfl, huv⟩ := intercalate_append_inj (by decide) (by decide)
        (fun x _ _ => chars_append_ne_cons (by decide) x)
        (fun x hx _ _ _ hrest hrest' => ih x hx hrest hrest') h
      exact ⟨rfl, huv⟩
    | _ => cases hshape
  | obj members ih =>
    have hshape := shape_eq_of_append_eq h
    cases b with
    | obj members' =>
      simp only [chars, memberChars_eq, List.cons_append, List.append_assoc, List.cons.injEq,
        true_and, List.nil_append] at h
      have hlead : ∀ m rest rest', memberText m ++ rest ≠ '\x7d' :: rest' :=
        fun _ _ _ heq => absurd (List.cons.inj heq).1 (by decide)
      obtain ⟨rfl, huv⟩ := intercalate_append_inj (by decide) (by decide) hlead
        (fun m hm _ _ _ hrest hrest' => memberText_append_inj (ih m hm hrest hrest')) h
      exact ⟨rfl, huv⟩
    | _ => cases hshape

/-- Values with the same text are the same. -/
theorem compact_injective : Function.Injective compact := by
  intro a b h
  have hchars : a.chars = b.chars := by
    unfold compact at h
    exact String.ofList_injective h
  refine (chars_append_inj stops_nil stops_nil ?_).1
  rw [hchars]

end Predictive.Json
