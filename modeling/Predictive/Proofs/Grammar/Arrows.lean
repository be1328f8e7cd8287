import Predictive.Proofs.Grammar.Lines

/-! # Where a line is cut

    An arrow has two spellings, and a line may hold both. Its first arrow is the
    one that begins furthest left (`RuleLine.FirstArrow`). A line is cut there
    unless its first arrow is `→` and `->` comes later: then it is cut at the
    first `->`, and the `→` falls into the left side
    (`RuleLine.FirstArrow.cutAt`). Such a line is skipped if there is a blank
    between the name and the `->`, and otherwise defines a name that holds `→`.
    No other rule has an arrow in the name that it defines.

    Main results: `Reading.lines_cut_at_arrow`, and `Reading.first_arrow_passed_over`
    for a line that is not cut at its first arrow.
-/

namespace Predictive

namespace RuleLine

variable {line before arrow after : List Char}

/-! ### The first arrow -/

/-- The line has an arrow behind `before`, and none that begins further left. -/
structure FirstArrow (line before arrow after : List Char) : Prop where
  isArrow : arrow ∈ arrows
  cut : line = before ++ arrow ++ after
  first : ∀ other ∈ arrows, ∀ front back, line = front ++ other ++ back →
    before.length ≤ front.length

theorem mem_arrows : arrow ∈ arrows ↔ arrow = ['-', '>'] ∨ arrow = ['→'] := by
  simp [arrows]

/-- Without the characters that arrows begin with there is no arrow. -/
theorem not_infix_of_not_mem (hdash : '-' ∉ before) (harrow : '→' ∉ before) :
    ∀ other ∈ arrows, ¬other <:+: before := by
  intro other hother hwithin
  rcases mem_arrows.1 hother with rfl | rfl
  · exact hdash (hwithin.mem List.mem_cons_self)
  · exact harrow (hwithin.mem List.mem_cons_self)

/-- An arrow that begins in front of another one ends in front of it. -/
theorem infix_of_length_lt {other front back : List Char} (harrow : arrow ∈ arrows)
    (hother : other ∈ arrows) (h : before ++ arrow ++ after = front ++ other ++ back)
    (hlt : front.length < before.length) : other <:+: before := by
  rw [List.append_assoc, List.append_assoc] at h
  -- `d` is the first character of the other arrow
  obtain ⟨d, rest, rfl, hrest⟩ : ∃ d rest, before = front ++ d :: rest ∧
      other ++ back = d :: rest ++ (arrow ++ after) := by
    rcases List.append_eq_append_iff.1 h with ⟨as, hfront, -⟩ | ⟨bs, hbefore, hback⟩
    · rw [hfront, List.length_append] at hlt
      omega
    · cases bs with
      | nil =>
        rw [hbefore, List.append_nil] at hlt
        omega
      | cons d rest => exact ⟨d, rest, hbefore, hback⟩
  rcases mem_arrows.1 hother with rfl | rfl
  · cases rest with
    | nil =>
      -- no arrow begins with the second character of `->`
      rcases mem_arrows.1 harrow with rfl | rfl <;> simp at hrest
    | cons e rest =>
      obtain ⟨rfl, rfl, -⟩ : '-' = d ∧ '>' = e ∧ _ := by simpa using hrest
      exact ⟨front, rest, by simp⟩
  · obtain ⟨rfl, -⟩ : '→' = d ∧ _ := by simpa using hrest
    exact ⟨front, rest, by simp⟩

theorem firstArrow_iff : FirstArrow line before arrow after ↔
    arrow ∈ arrows ∧ line = before ++ arrow ++ after ∧ ∀ other ∈ arrows, ¬other <:+: before := by
  constructor
  · intro h
    refine ⟨h.isArrow, h.cut, ?_⟩
    intro other hother hwithin
    obtain ⟨front, back, hbefore⟩ := hwithin
    have hle := h.first other hother front (back ++ arrow ++ after) (by
      rw [h.cut, ← hbefore]
      simp)
    have hpos : 0 < other.length := by
      rcases mem_arrows.1 hother with rfl | rfl <;> simp
    rw [← hbefore] at hle
    simp only [List.length_append] at hle
    omega
  · intro h
    obtain ⟨harrow, hcut, hnone⟩ := h
    refine ⟨harrow, hcut, ?_⟩
    intro other hother front back hline
    refine Nat.le_of_not_lt ?_
    intro hlt
    exact hnone other hother (infix_of_length_lt harrow hother (hcut.symm.trans hline) hlt)

/-- A line with an arrow has a first one. -/
theorem exists_firstArrow {other : List Char} (hother : other ∈ arrows) (h : other <:+: line) :
    ∃ before arrow after, FirstArrow line before arrow after := by
  induction line with
  | nil =>
    obtain rfl := List.infix_nil.1 h
    simp [arrows] at hother
  | cons c line ih =>
    -- an arrow at the beginning is the first one, otherwise it is that of the rest
    by_cases hfront : ∃ arrow ∈ arrows, arrow <+: c :: line
    · obtain ⟨arrow, harrow, after, hline⟩ := hfront
      refine ⟨[], arrow, after, firstArrow_iff.2 ⟨harrow, hline.symm, ?_⟩⟩
      intro other hother hnil
      obtain rfl := List.infix_nil.1 hnil
      simp [arrows] at hother
    · rcases List.infix_cons_iff.1 h with hprefix | hwithin
      · exact absurd ⟨other, hother, hprefix⟩ hfront
      · obtain ⟨before, arrow, after, hfirst⟩ := ih hwithin
        obtain ⟨harrow, hcut, hnone⟩ := firstArrow_iff.1 hfirst
        refine ⟨c :: before, arrow, after, firstArrow_iff.2 ⟨harrow, by simp [hcut], ?_⟩⟩
        intro other hother hwithin
        rcases List.infix_cons_iff.1 hwithin with hprefix | hwithin
        · refine hfront ⟨other, hother, hprefix.trans ⟨arrow ++ after, ?_⟩⟩
          simp [hcut]
        · exact hnone other hother hwithin

/-- Behind a name without an arrow and blanks, an arrow is the first one. -/
theorem firstArrow_of_name {name blanks : List Char} (harrow : arrow ∈ arrows)
    (hname : ∀ other ∈ arrows, ¬other <:+: name) (hblanks : ∀ c ∈ blanks, Text.isBlank c = true) :
    FirstArrow (name ++ blanks ++ arrow ++ after) (name ++ blanks) arrow after := by
  refine firstArrow_iff.2 ⟨harrow, rfl, ?_⟩
  intro other hother
  have hinked : ∀ c ∈ other, Text.isBlank c = false := by
    intro c hc
    have hchar : c = '-' ∨ c = '>' ∨ c = '→' := by
      rcases mem_arrows.1 hother with rfl | rfl
      · simp only [List.mem_cons, List.not_mem_nil, or_false] at hc
        exact hc.imp_right .inl
      · exact .inr (.inr (List.mem_singleton.1 hc))
    rcases hchar with rfl | rfl | rfl <;> decide
  have hne : other ≠ [] := by
    rcases mem_arrows.1 hother with rfl | rfl <;> simp
  cases blanks with
  | nil =>
    rw [List.append_nil]
    exact hname other hother
  | cons c blanks =>
    -- the arrow does not hold the first blank, so it is in front of it or behind
    have hc : c ∉ other := by
      intro hmem
      have hfalse := hinked c hmem
      rw [hblanks c List.mem_cons_self] at hfalse
      cases hfalse
    rw [Text.infix_append_cons_iff hne hc, not_or]
    refine ⟨hname other hother, ?_⟩
    intro hwithin
    obtain ⟨d, hd⟩ := List.exists_mem_of_ne_nil other hne
    have htrue := hblanks d (List.mem_cons_of_mem c (hwithin.mem hd))
    rw [hinked d hd] at htrue
    cases htrue

/-! ### The cut -/

/-- A line has one first `->`. -/
theorem eq_of_ascii {before' after' : List Char}
    (h : before ++ ['-', '>'] ++ after = before' ++ ['-', '>'] ++ after')
    (hfirst : ¬['-', '>'] <:+: before) (hfirst' : ¬['-', '>'] <:+: before') : before = before' := by
  have hcut : sides? (before ++ ['-', '>'] ++ after) = some (before, after) :=
    sides?_of_ascii hfirst
  rw [h, sides?_of_ascii hfirst'] at hcut
  exact (Prod.mk.inj (Option.some.inj hcut)).1.symm

/-- Without `->` a line is cut at its first `→`. -/
theorem sides?_of_not_ascii (hline : ¬['-', '>'] <:+: before ++ ['→'] ++ after)
    (h : ¬['→'] <:+: before) : sides? (before ++ ['→'] ++ after) = some (before, after) := by
  have hnone := (Text.splitAround?_eq_none_iff (by decide)).2 hline
  have hcut : Text.splitAround? ['→'] (before ++ ['→'] ++ after) = some (before, after) :=
    Text.splitAround?_append [] '→' rfl (by decide) h
  unfold sides? arrows
  rw [List.findSome?_cons, hnone]
  show List.findSome? _ [['→']] = _
  rw [List.findSome?_singleton, hcut]

/-- Where a line is cut that has `arrow` as its first arrow, between `before` and
    `after`. -/
inductive Cut (line before arrow after : List Char) : Prop where
  | here (only : ¬(arrow = ['→'] ∧ ['-', '>'] <:+: after))
    (cut : sides? line = some (before, after))
  | later {mid rest : List Char} (passed : arrow = ['→'])
    (split : after = mid ++ ['-', '>'] ++ rest) (next : ¬['-', '>'] <:+: mid)
    (cut : sides? line = some (before ++ '→' :: mid, rest))

/-- A line is cut at its first arrow, or at the first `->` behind it if this is a
    `→`. -/
theorem FirstArrow.cutAt (h : FirstArrow line before arrow after) :
    Cut line before arrow after := by
  obtain ⟨harrow, rfl, hnone⟩ := firstArrow_iff.1 h
  have hascii := hnone ['-', '>'] (by decide)
  -- there is no `->` in front, and none that reaches into the `→`
  have hover : ∀ after, ['-', '>'] <:+: before ++ '→' :: after ↔ ['-', '>'] <:+: after := by
    intro after
    rw [Text.infix_append_cons_iff (by decide) (by decide)]
    exact or_iff_right hascii
  rcases mem_arrows.1 harrow with rfl | rfl
  · exact .here (by simp) (sides?_of_ascii hascii)
  · by_cases hlater : ['-', '>'] <:+: after
    · obtain ⟨⟨mid, rest⟩, hsplit⟩ : ∃ sides, Text.splitAround? ['-', '>'] after = some sides := by
        rw [← Option.isSome_iff_exists, Option.isSome_iff_ne_none, ne_eq,
          Text.splitAround?_eq_none_iff (by decide)]
        exact not_not_intro hlater
      have hafter := Text.eq_append_of_splitAround? hsplit
      have hmid := Text.not_infix_of_splitAround? (by decide) hsplit
      refine .later rfl hafter hmid ?_
      have hcut : sides? (before ++ '→' :: mid ++ ['-', '>'] ++ rest)
          = some (before ++ '→' :: mid, rest) := sides?_of_ascii (mt (hover mid).1 hmid)
      rw [← hcut, hafter]
      simp
    · refine .here (fun hboth => hlater hboth.2) (sides?_of_not_ascii ?_ (hnone ['→'] (by decide)))
      simpa using mt (hover after).1 hlater

/-- A line is cut at its first arrow just if this is not a `→` with `->` behind. -/
theorem sides?_eq_iff_of_firstArrow (h : FirstArrow line before arrow after) :
    sides? line = some (before, after) ↔ ¬(arrow = ['→'] ∧ ['-', '>'] <:+: after) := by
  cases h.cutAt with
  | here only cut => exact iff_of_true cut only
  | @later mid rest passed split next cut =>
    refine iff_of_false ?_ (not_not_intro ⟨passed, mid, rest, split.symm⟩)
    rw [cut]
    intro hsame
    have hlength := congrArg (fun sides => sides.map (·.1.length)) hsame
    simp at hlength

end RuleLine

/-! ### Whole texts -/

namespace Reading

open RuleLine (FirstArrow)

variable {text : String} {line before arrow after : List Char} {name : String} {r : RuleLine}

/-- The left side of a line whose first arrow is in front of `->` reaches up to
    the `->`. It is a name unless there is a blank in it. -/
theorem exists_leftSide_iff {mid : List Char} :
    (∃ name, RuleLine.leftSide (before ++ '→' :: mid) = .ok name) ↔
      ∀ c ∈ Text.trim (before ++ '→' :: mid), Text.isBlank c = false := by
  have hmem : '→' ∈ Text.trim (before ++ '→' :: mid) :=
    Text.mem_trim_of_not_isBlank (by simp) (by decide)
  constructor
  · intro h
    obtain ⟨name, hname⟩ := h
    obtain ⟨htrim, hisName, -⟩ := RuleLine.leftSide_eq_ok_iff.1 hname
    rw [htrim]
    exact hisName.isWord.not_isBlank
  · intro hblank
    have hname : ∀ name : String, '→' ∉ name.toList →
        String.ofList (Text.trim (before ++ '→' :: mid)) ≠ name := by
      intro name hnot hsame
      rw [← hsame, String.toList_ofList] at hnot
      exact hnot hmem
    -- a name with `→` is not reserved
    refine ⟨_, RuleLine.leftSide_eq_ok_iff.2 ⟨String.toList_ofList.symm, ⟨⟨?_, ?_⟩, ?_⟩, ?_⟩⟩
    · rw [String.toList_ofList]
      exact List.ne_nil_of_mem hmem
    · rw [String.toList_ofList]
      exact hblank
    · exact hname _ (by decide)
    · exact hname _ (by decide)

/-- A line is a rule if the part before the cut is a left side. -/
theorem ruleOf?_isSome_iff : (ruleOf? line).isSome ↔ ∃ before after,
    RuleLine.sides? (Text.trim line) = some (before, after) ∧
      ∃ name, RuleLine.leftSide before = .ok name := by
  rw [Option.isSome_iff_exists]
  constructor
  · intro h
    obtain ⟨r, hr⟩ := h
    obtain ⟨before, after, hsides, hleft, -⟩ :=
      RuleLine.read_eq_ok_iff.1 (ruleOf?_eq_some_iff.1 hr)
    exact ⟨before, after, hsides, r.left, hleft⟩
  · intro h
    obtain ⟨before, after, hsides, name, hleft⟩ := h
    exact ⟨⟨name, _⟩, ruleOf?_eq_some_iff.2 (RuleLine.read_eq_ok_iff.2
      ⟨before, after, hsides, hleft, rfl⟩)⟩

/-- A name that a line defines holds a `→` just if this is the first arrow of the
    line and `->` comes later. -/
theorem arrow_mem_left_iff (h : FirstArrow line before arrow after)
    (hread : RuleLine.read line = .ok r) :
    '→' ∈ r.left.toList ↔ arrow = ['→'] ∧ ['-', '>'] <:+: after := by
  obtain ⟨cut, rest, hsides, hleft, -⟩ := RuleLine.read_eq_ok_iff.1 hread
  obtain ⟨htrim, -⟩ := RuleLine.leftSide_eq_ok_iff.1 hleft
  cases h.cutAt with
  | here only hcut =>
    obtain ⟨rfl, -⟩ : before = cut ∧ _ := by simpa using hcut.symm.trans hsides
    refine iff_of_false ?_ only
    intro hmem
    -- the name is part of the text in front of the first arrow
    obtain ⟨-, -, hnone⟩ := RuleLine.firstArrow_iff.1 h
    rw [← htrim] at hmem
    obtain ⟨front, back, rfl⟩ := List.append_of_mem ((Text.trim_infix before).mem hmem)
    exact hnone ['→'] (by decide) ⟨front, back, by simp⟩
  | @later mid rest passed split next hcut =>
    obtain ⟨rfl, -⟩ : before ++ '→' :: mid = cut ∧ _ := by simpa using hcut.symm.trans hsides
    refine iff_of_true ?_ ⟨passed, mid, rest, split.symm⟩
    rw [← htrim]
    exact Text.mem_trim_of_not_isBlank (by simp) (by decide)

/-- A line that is a rule has a first arrow. -/
theorem exists_firstArrow_of_read (hread : RuleLine.read line = .ok r) :
    ∃ before arrow after, FirstArrow line before arrow after := by
  obtain ⟨before, after, hsides, -⟩ := RuleLine.read_eq_ok_iff.1 hread
  obtain ⟨arrow, harrow, hcut⟩ := List.exists_of_findSome?_eq_some hsides
  have hline := Text.eq_append_of_splitAround? hcut
  exact RuleLine.exists_firstArrow harrow ⟨before, after, hline.symm⟩

/-- The names that rules define hold no `->`, and hold a `→` only as the first
    arrow of a line that has a later `->`. -/
theorem arrows_of_left {rule : Rule} (h : rule ∈ (ofText text).grammar.rules) :
    ¬['-', '>'] <:+: ((ofText text).grammar.name rule.left).toList ∧
    ('→' ∈ ((ofText text).grammar.name rule.left).toList ↔
      ∃ line ∈ textLines text, ∃ r, RuleLine.read (Text.trim line) = .ok r ∧
        r.left = (ofText text).grammar.name rule.left ∧
        ∃ before after, FirstArrow (Text.trim line) before ['→'] after ∧
          ['-', '>'] <:+: after) := by
  -- some line of the text adds the rule
  have hadds : (ofText text).grammar.production rule ∈ (textLines text).flatMap productionsOf := by
    rw [← map_production_ofText]
    exact List.mem_map.2 ⟨rule, h, rfl⟩
  obtain ⟨line, hline, hmem⟩ := List.mem_flatMap.1 hadds
  obtain ⟨r, hr, hproduction⟩ := List.mem_flatMap.1 hmem
  have hread := ruleOf?_eq_some_iff.1 (Option.mem_toList.1 hr)
  obtain ⟨alternative, -, hsame⟩ := List.mem_map.1 hproduction
  obtain ⟨hleft, -⟩ := Production.mk.inj hsame
  refine ⟨?_, ?_⟩
  · have hprintable := RuleLine.printable_of_read hread hproduction
    rw [← hsame] at hprintable
    rw [← hleft]
    exact hprintable.left_not_arrow
  · constructor
    · intro hmem
      obtain ⟨before, arrow, after, hfirst⟩ := exists_firstArrow_of_read hread
      rw [← hleft] at hmem
      obtain ⟨rfl, hlater⟩ := (arrow_mem_left_iff hfirst hread).1 hmem
      exact ⟨line, hline, r, hread, hleft, before, after, hfirst, hlater⟩
    · intro hlines
      obtain ⟨line, -, r, hread, hleft, before, after, hfirst, hlater⟩ := hlines
      rw [← hleft]
      exact (arrow_mem_left_iff hfirst hread).2 ⟨rfl, hlater⟩

/-- A line that begins with a name and an arrow is reported just if the arrow is
    `→`, `->` comes later, and there is a blank in the text up to the `->`. -/
theorem exists_skipped_iff_of_name {i : Nat} {blanks : List Char}
    (hline : (textLines text)[i]? = some line) (hname : IsName name)
    (hmark : name ≠ Symbol.endMarkName)
    (hnone : ∀ other ∈ RuleLine.arrows, ¬other <:+: name.toList)
    (hblanks : ∀ c ∈ blanks, Text.isBlank c = true) (harrow : arrow ∈ RuleLine.arrows)
    (htrim : Text.trim line = name.toList ++ blanks ++ arrow ++ after) :
    (∃ s ∈ (ofText text).skipped, s.line = i + 1) ↔
      ∃ mid rest, arrow = ['→'] ∧ after = mid ++ ['-', '>'] ++ rest ∧ ¬['-', '>'] <:+: mid ∧
        ∃ c ∈ Text.trim (name.toList ++ blanks ++ '→' :: mid), Text.isBlank c = true := by
  have hnonempty : Text.trim line ≠ [] := by
    rw [htrim]
    simp [hname.isWord.ne_nil]
  have hfirst : FirstArrow (Text.trim line) (name.toList ++ blanks) arrow after := by
    rw [htrim]
    exact RuleLine.firstArrow_of_name harrow hnone hblanks
  rw [exists_skipped_iff hline, and_iff_right hnonempty, ← Option.not_isSome_iff_eq_none,
    ruleOf?_isSome_iff]
  cases hfirst.cutAt with
  | here only cut =>
    -- the line defines the name
    refine iff_of_false (not_not_intro ⟨_, _, cut, name, ?_⟩) ?_
    · exact RuleLine.leftSide_append hname hmark hblanks
    · intro hpassed
      obtain ⟨mid, rest, harrow, hafter, -⟩ := hpassed
      exact only ⟨harrow, mid, rest, hafter.symm⟩
  | @later mid rest passed split next cut =>
    -- the line is a rule just if all of it up to the `->` is one word
    constructor
    · intro hnorule
      refine ⟨mid, rest, passed, split, next, ?_⟩
      by_contra hall
      refine hnorule ⟨_, _, cut, exists_leftSide_iff.2 ?_⟩
      intro c hc
      exact Bool.eq_false_iff.2 fun hblank => hall ⟨c, hc, hblank⟩
    · intro hblank hrule
      obtain ⟨mid', rest', -, hafter, hmid', c, hc, hblank⟩ := hblank
      obtain ⟨before, after, hsides, hleft⟩ := hrule
      obtain rfl := RuleLine.eq_of_ascii (split.symm.trans hafter) next hmid'
      obtain ⟨rfl, rfl⟩ := Prod.mk.inj (Option.some.inj (cut.symm.trans hsides))
      rw [exists_leftSide_iff.1 hleft c hc] at hblank
      cases hblank

/-- Where the lines of a grammar text are cut. A line with an arrow has a first
    one, and is cut there just if this is not a `→` with `->` somewhere behind it.
    The names that rules define hold no `->`, and a `→` only if they come from such
    a line. A line that begins with a name other than `ε` and `$`, with an arrow
    behind it, is not reported unless it is such a line and there is a blank in its
    text up to the `->`. -/
theorem lines_cut_at_arrow (text : String) :
    (∀ line, (∃ other ∈ RuleLine.arrows, other <:+: line) →
      ∃ before arrow after, FirstArrow line before arrow after) ∧
    (∀ line before arrow after, FirstArrow line before arrow after →
      (RuleLine.sides? line = some (before, after) ↔
        ¬(arrow = ['→'] ∧ ['-', '>'] <:+: after))) ∧
    (∀ rule ∈ (ofText text).grammar.rules,
      ¬['-', '>'] <:+: ((ofText text).grammar.name rule.left).toList ∧
      ('→' ∈ ((ofText text).grammar.name rule.left).toList ↔
        ∃ line ∈ textLines text, ∃ r, RuleLine.read (Text.trim line) = .ok r ∧
          r.left = (ofText text).grammar.name rule.left ∧
          ∃ before after, FirstArrow (Text.trim line) before ['→'] after ∧
            ['-', '>'] <:+: after)) ∧
    ∀ i line name blanks arrow after, (textLines text)[i]? = some line →
      IsName name → name ≠ Symbol.endMarkName →
      (∀ other ∈ RuleLine.arrows, ¬other <:+: name.toList) →
      (∀ c ∈ blanks, Text.isBlank c = true) → arrow ∈ RuleLine.arrows →
      Text.trim line = name.toList ++ blanks ++ arrow ++ after →
      ((∃ s ∈ (ofText text).skipped, s.line = i + 1) ↔
        ∃ mid rest, arrow = ['→'] ∧ after = mid ++ ['-', '>'] ++ rest ∧ ¬['-', '>'] <:+: mid ∧
          ∃ c ∈ Text.trim (name.toList ++ blanks ++ '→' :: mid), Text.isBlank c = true) := by
  refine ⟨?_, fun _ _ _ _ h => RuleLine.sides?_eq_iff_of_firstArrow h,
    fun _ h => arrows_of_left h, ?_⟩
  · intro line harrow
    obtain ⟨other, hother, hwithin⟩ := harrow
    exact RuleLine.exists_firstArrow hother hwithin
  · intro i line name blanks arrow after hline hname hmark hnone hblanks harrow htrim
    exact exists_skipped_iff_of_name hline hname hmark hnone hblanks harrow htrim

/-- In the first line there is a blank in front of the `->`, in the second there is
    none, and in the third the first arrow is the `->`. -/
theorem lines_cut_at_arrow_of_mixed :
    let text := "A → b -> c\nB→b -> c\nC -> b → c"
    let line := ['A', ' ', '→', ' ', 'b', ' ', '-', '>', ' ', 'c']
    ((textLines text)[0]? = some line ∧ Text.trim line = line ∧ IsName "A" ∧
      ∃ s ∈ (ofText text).skipped, s.line = 0 + 1) ∧
    (⟨2, [3]⟩ ∈ (ofText text).grammar.rules ∧ (ofText text).grammar.name 2 = "B→b" ∧
      ∃ line ∈ textLines text, ∃ r, RuleLine.read (Text.trim line) = .ok r ∧ r.left = "B→b" ∧
        ∃ before after, FirstArrow (Text.trim line) before ['→'] after ∧ ['-', '>'] <:+: after) ∧
    FirstArrow ['C', ' ', '-', '>', ' ', 'b', ' ', '→', ' ', 'c'] ['C', ' '] ['-', '>']
        [' ', 'b', ' ', '→', ' ', 'c'] ∧
      RuleLine.sides? ['C', ' ', '-', '>', ' ', 'b', ' ', '→', ' ', 'c']
        = some (['C', ' '], [' ', 'b', ' ', '→', ' ', 'c']) := by
  intro text line
  have hblank : ∀ c ∈ [' '], Text.isBlank c = true := by
    intro c hc
    rw [List.mem_singleton.1 hc]
    decide
  have hline : (textLines text)[0]? = some line := by decide
  have htrim : Text.trim line = line := by decide
  have hname : IsName "A" := by
    refine ⟨⟨by decide, ?_⟩, by decide⟩
    intro c hc
    rw [List.mem_singleton.1 (show c ∈ ['A'] from hc)]
    decide
  have hrule : (⟨2, [3]⟩ : Rule) ∈ (ofText text).grammar.rules := by decide
  have hleft : (ofText text).grammar.name 2 = "B→b" := by decide
  have hfirst : FirstArrow ['C', ' ', '-', '>', ' ', 'b', ' ', '→', ' ', 'c'] ['C', ' '] ['-', '>']
      [' ', 'b', ' ', '→', ' ', 'c'] :=
    RuleLine.firstArrow_iff.2
      ⟨by decide, rfl, RuleLine.not_infix_of_not_mem (by decide) (by decide)⟩
  obtain ⟨-, hcut, hnames, hreported⟩ := lines_cut_at_arrow text
  refine ⟨⟨hline, htrim, hname, ?_⟩, ⟨hrule, hleft, ?_⟩, hfirst, (hcut _ _ _ _ hfirst).2 (by simp)⟩
  · have hnone : ∀ other ∈ RuleLine.arrows, ¬other <:+: "A".toList :=
      RuleLine.not_infix_of_not_mem (by decide) (by decide)
    refine (hreported 0 line "A" [' '] ['→'] [' ', 'b', ' ', '-', '>', ' ', 'c'] hline hname
      (by decide) hnone hblank (by decide) htrim).2 ?_
    refine ⟨[' ', 'b', ' '], [' ', 'c'], rfl, rfl, ?_, ' ', by decide, by decide⟩
    exact RuleLine.not_infix_of_not_mem (by decide) (by decide) _ (by decide)
  · obtain ⟨-, hiff⟩ := hnames _ hrule
    rw [hleft] at hiff
    exact hiff.1 (by decide)

/-- The line `A → b -> c` begins with a name and an arrow, but is not cut there, and
    is skipped. Without the blanks in front of the `->` it defines the name `A→b`. -/
theorem first_arrow_passed_over :
    FirstArrow ['A', ' ', '→', ' ', 'b', ' ', '-', '>', ' ', 'c'] ['A', ' '] ['→']
        [' ', 'b', ' ', '-', '>', ' ', 'c'] ∧
      RuleLine.sides? ['A', ' ', '→', ' ', 'b', ' ', '-', '>', ' ', 'c']
        = some (['A', ' ', '→', ' ', 'b', ' '], [' ', 'c']) ∧
      ofText "A → b -> c" = ⟨.empty, [⟨1, "A → b -> c", .blankInLeftSide⟩]⟩ ∧
      (ofText "A→b -> c").grammar.rules.map (ofText "A→b -> c").grammar.production
        = [⟨"A→b", ["c"]⟩] := by
  have hnone : ∀ other ∈ RuleLine.arrows, ¬other <:+: ['A', ' '] :=
    RuleLine.not_infix_of_not_mem (by decide) (by decide)
  exact ⟨RuleLine.firstArrow_iff.2 ⟨by decide, rfl, hnone⟩, by decide, by decide, by decide⟩

end Reading

end Predictive
