import Predictive.Proofs.Text
import Predictive.Proofs.Phrase
import Predictive.Proofs.Grammar.Register

/-! # Reading takes back printing

    A grammar is printed one rule per line, with `->` between the sides. Names
    are any words, so a left side may hold `→` or `|` and a right side any
    arrow. The printed line is still cut at the arrow that was printed, since a
    left side that was read never holds `->`, and it is one alternative, since
    a right side that was read never holds `|` (`Production.Printable`).

    So the printed text has just the productions of the grammar
    (`Reading.productions_printed`), and its grammar is numbered as before.

    Main result: `Reading.ofText_printed`.
-/

namespace Predictive

/-- The names on the right side as they are printed. -/
def Production.shown (p : Production) : List String :=
  if p.right.isEmpty then [Symbol.epsilonName] else p.right

/-- The line of a production. -/
def Production.text (p : Production) : String := p.left ++ " -> " ++ " ".intercalate p.shown

/-- What the reader promises about a production beyond its names being names:
    they do not disturb its line. -/
structure Production.Printable (p : Production) : Prop extends p.WellFormed where
  left_not_arrow : ¬['-', '>'] <:+: p.left.toList
  right_not_bar : ∀ name ∈ p.right, '|' ∉ name.toList

/-! ### What is read can be printed -/

/-- The part before the arrow does not hold `->`: if the line has one, the line
    is cut at the first. -/
theorem RuleLine.not_arrow_of_sides? {line before after : List Char}
    (h : RuleLine.sides? line = some (before, after)) : ¬['-', '>'] <:+: before := by
  have hword : (['-', '>'] : List Char) ≠ [] := by decide
  unfold RuleLine.sides? RuleLine.arrows at h
  rw [List.findSome?_cons] at h
  cases hcut : Text.splitAround? ['-', '>'] line with
  | some sides =>
    rw [hcut] at h
    obtain rfl := Option.some.inj h
    exact Text.not_infix_of_splitAround? hword hcut
  | none =>
    -- then `->` is nowhere in the line, and the line is cut at `→`
    rw [hcut] at h
    have hnone := (Text.splitAround?_eq_none_iff hword).1 hcut
    rw [List.findSome?_singleton] at h
    have hline := Text.eq_append_of_splitAround? h
    intro hwithin
    refine hnone (hwithin.trans ?_)
    rw [hline, List.append_assoc]
    exact (List.prefix_append before _).isInfix

theorem RuleLine.printable_of_read {line : List Char} {r : RuleLine}
    (h : RuleLine.read line = .ok r) {p : Production} (hp : p ∈ r.productions) :
    p.Printable := by
  refine ⟨RuleLine.wellFormed_of_read h hp, ?_, ?_⟩
  · obtain ⟨before, after, hsides, hleft, -⟩ := RuleLine.read_eq_ok_iff.1 h
    obtain ⟨names, -, rfl⟩ := List.mem_map.1 hp
    obtain ⟨htrim, -⟩ := RuleLine.leftSide_eq_ok_iff.1 hleft
    intro hwithin
    rw [← htrim] at hwithin
    exact RuleLine.not_arrow_of_sides? hsides (hwithin.trans (Text.trim_infix before))
  · obtain ⟨before, after, -, -, halternatives⟩ := RuleLine.read_eq_ok_iff.1 h
    obtain ⟨names, hnames, rfl⟩ := List.mem_map.1 hp
    rw [halternatives] at hnames
    obtain ⟨piece, hpiece, rfl⟩ := List.mem_map.1 hnames
    intro name hname hbar
    -- a name is a word of a piece between bars
    obtain ⟨hmem, -⟩ := List.mem_filter.1 hname
    obtain ⟨w, hw, rfl⟩ := List.mem_map.1 hmem
    rw [String.toList_ofList] at hbar
    have hnot := Text.not_mem_of_mem_splitWhere hpiece (Text.mem_of_mem_words hw hbar)
    exact absurd hnot (by decide)

theorem Reading.printable_of_mem_productions {text : List Char} {p : Production}
    (h : p ∈ Reading.productions text) : p.Printable := by
  obtain ⟨r, hr, hp⟩ := Reading.mem_productions.1 h
  obtain ⟨line, -, hread⟩ := Reading.ok_mem_lines_iff.1 hr
  exact RuleLine.printable_of_read hread hp

/-! ### What a grammar prints -/

namespace Grammar

variable {ps : List Production}

/-- Numbers of names are printed as these names. -/
theorem names_map_idxOf {names : List String} (h : ∀ name ∈ names, name ∈ namesOf ps) :
    (ofProductions ps).names (names.map (namesOf ps).idxOf) = names := by
  unfold Grammar.names
  rw [List.map_map]
  refine (List.map_congr_left ?_).trans (List.map_id names)
  intro name hname
  exact name_ofProductions (getElem?_idxOf_namesOf (h name hname))

/-- A rule is printed as the production that it is made from. -/
theorem ruleText_ofProductions {p : Production} (hp : p ∈ ps) :
    (ofProductions ps).ruleText ⟨(namesOf ps).idxOf p.left, p.right.map (namesOf ps).idxOf⟩
      = p.text := by
  have hright : ∀ name ∈ p.right, name ∈ namesOf ps :=
    fun _ hname => mem_namesOf_of_mem_right hp hname
  have hepsilon : (ofProductions ps).names [Symbol.epsilon] = [Symbol.epsilonName] := by
    show [(ofProductions ps).name Symbol.epsilon] = _
    rw [name_ofProductions getElem?_namesOf_epsilon]
  unfold ruleText Production.text Grammar.phrase Rule.shown Production.shown
  rw [name_ofProductions (getElem?_idxOf_namesOf (left_mem_namesOf hp))]
  by_cases hempty : p.right = []
  · simp [hempty, hepsilon]
  · simp [hempty, names_map_idxOf hright]

theorem text_ofProductions :
    (ofProductions ps).text = "\n".intercalate (ps.map Production.text) := by
  unfold Grammar.text
  congr 1
  show (ps.map _).map _ = _
  rw [List.map_map]
  exact List.map_congr_left fun p hp => ruleText_ofProductions hp

end Grammar

/-! ### Printed lines -/

section Line

/-- The characters of words with spaces between them. -/
theorem Text.mem_intercalate_space {ws : List (List Char)} {c : Char}
    (h : c ∈ List.intercalate [' '] ws) : c = ' ' ∨ ∃ w ∈ ws, c ∈ w := by
  induction ws with
  | nil => cases h
  | cons w ws ih =>
    cases ws with
    | nil =>
      rw [List.intercalate_singleton] at h
      exact .inr ⟨w, List.mem_cons_self, h⟩
    | cons v vs =>
      rw [List.intercalate_cons_cons, List.append_assoc, List.mem_append, List.mem_append,
        List.mem_singleton] at h
      rcases h with h | h | h
      · exact .inr ⟨w, List.mem_cons_self, h⟩
      · exact .inl h
      · exact (ih h).imp_right fun ⟨u, hu, hc⟩ => ⟨u, List.mem_cons_of_mem w hu, hc⟩

/-- Words with spaces between them end with the last word. -/
theorem Text.exists_getLast_intercalate {ws : List (List Char)} (hne : ws ≠ [])
    (h : ∀ w ∈ ws, IsWord w) :
    ∃ front c, List.intercalate [' '] ws = front ++ [c] ∧ isBlank c = false := by
  induction ws with
  | nil => exact absurd rfl hne
  | cons w ws ih =>
    cases ws with
    | nil =>
      have hw := h w List.mem_cons_self
      rw [List.intercalate_singleton]
      refine ⟨w.dropLast, w.getLast hw.ne_nil, (List.dropLast_concat_getLast hw.ne_nil).symm, ?_⟩
      exact hw.not_isBlank _ (List.getLast_mem hw.ne_nil)
    | cons v vs =>
      obtain ⟨front, c, hlast, hc⟩ := ih (List.cons_ne_nil v vs)
        fun u hu => h u (List.mem_cons_of_mem w hu)
      refine ⟨w ++ [' '] ++ front, c, ?_, hc⟩
      rw [List.intercalate_cons_cons, hlast, ← List.append_assoc]

/-- The first `->` of a line is where it is cut. -/
theorem RuleLine.sides?_of_ascii {before after : List Char} (h : ¬['-', '>'] <:+: before) :
    RuleLine.sides? (before ++ ['-', '>'] ++ after) = some (before, after) := by
  have hcut : Text.splitAround? ['-', '>'] (before ++ ['-', '>'] ++ after) = some (before, after) :=
    Text.splitAround?_append ['-'] '>' rfl (by decide) h
  unfold RuleLine.sides? RuleLine.arrows
  rw [List.findSome?_cons, hcut]

/-- Behind a left side without `->` the printed arrow is the first one. -/
theorem RuleLine.sides?_printed {left rest : List Char} (h : ¬['-', '>'] <:+: left) :
    RuleLine.sides? (left ++ [' ', '-', '>', ' '] ++ rest)
      = some (left ++ [' '], ' ' :: rest) := by
  -- no arrow reaches into the space
  have hbefore : ¬['-', '>'] <:+: left ++ [' '] := by
    rw [Text.infix_append_cons_iff (by decide) (by decide), not_or]
    exact ⟨h, by decide⟩
  have hcut : RuleLine.sides? (left ++ [' '] ++ ['-', '>'] ++ ' ' :: rest)
      = some (left ++ [' '], ' ' :: rest) := RuleLine.sides?_of_ascii hbefore
  rw [← hcut]
  simp

/-- A name with blanks behind it is read as a left side. -/
theorem RuleLine.leftSide_append {name : String} {blanks : List Char} (hname : IsName name)
    (hmark : name ≠ Symbol.endMarkName) (hblanks : ∀ c ∈ blanks, Text.isBlank c = true) :
    RuleLine.leftSide (name.toList ++ blanks) = .ok name := by
  refine RuleLine.leftSide_eq_ok_iff.2 ⟨?_, hname, hmark⟩
  have hblank := hname.isWord.not_isBlank
  apply Text.trim_append hname.isWord.ne_nil
  · exact fun c hc => hblank c (List.mem_of_head? hc)
  · exact fun c hc => hblank c (List.mem_of_getLast? hc)
  · exact hblanks

variable {p : Production}

theorem Production.toList_text :
    p.text.toList = p.left.toList ++ [' ', '-', '>', ' '] ++
      List.intercalate [' '] (p.shown.map String.toList) := by
  unfold Production.text
  rw [String.toList_append, String.toList_append, String.toList_intercalate]
  rfl

namespace Production.Printable

variable (hp : p.Printable)

include hp

theorem isWord_of_mem_shown {name : String} (h : name ∈ p.shown) :
    Text.IsWord name.toList ∧ '|' ∉ name.toList := by
  unfold Production.shown at h
  split at h
  · rw [List.mem_singleton.1 h]
    have hchars : Symbol.epsilonName.toList = ['ε'] := rfl
    rw [hchars]
    refine ⟨⟨by decide, ?_⟩, by decide⟩
    intro c hc
    rw [List.mem_singleton.1 hc]
    decide
  · exact ⟨(hp.right name h).isWord, hp.right_not_bar name h⟩

theorem isWord_of_mem_map_shown : ∀ w ∈ p.shown.map String.toList, Text.IsWord w := by
  intro w hw
  obtain ⟨name, hname, rfl⟩ := List.mem_map.1 hw
  exact (hp.isWord_of_mem_shown hname).1

/-- The printed right side has no bar, and is read back. -/
theorem names_right : (Text.splitWhere (· == '|')
    (' ' :: List.intercalate [' '] (p.shown.map String.toList))).map Phrase.names = [p.right] := by
  have hbar : ∀ c ∈ ' ' :: List.intercalate [' '] (p.shown.map String.toList),
      (c == '|') = false := by
    intro c hc
    rw [beq_eq_false_iff_ne]
    rintro rfl
    rcases List.mem_cons.1 hc with hc | hc
    · cases hc
    · rcases Text.mem_intercalate_space hc with hc | ⟨w, hw, hc⟩
      · cases hc
      · obtain ⟨name, hname, rfl⟩ := List.mem_map.1 hw
        exact (hp.isWord_of_mem_shown hname).2 hc
  rw [Text.splitWhere_eq_singleton hbar, List.map_singleton]
  unfold Phrase.names
  rw [Text.words_cons_of_isBlank (by decide), Text.words_intercalate hp.isWord_of_mem_map_shown]
  have hchars : (p.shown.map String.toList).map String.ofList = p.shown := by simp
  rw [hchars]
  unfold Production.shown
  by_cases hempty : p.right = []
  · simp [hempty]
  · rw [if_neg (by simpa using hempty), List.filter_eq_self.2]
    exact fun name hname => decide_eq_true (hp.right name hname).ne_epsilon

/-- The line of a production is read as this production. -/
theorem read_text : RuleLine.read p.text.toList = .ok ⟨p.left, [p.right]⟩ := by
  have hspace : ∀ c ∈ [' '], Text.isBlank c = true := by
    intro c hc
    rw [List.mem_singleton.1 hc]
    decide
  rw [Production.toList_text, RuleLine.read_eq_ok_iff]
  exact ⟨_, _, RuleLine.sides?_printed hp.left_not_arrow,
    RuleLine.leftSide_append hp.left hp.left_ne_endMark hspace, hp.names_right.symm⟩

/-- The line of a production has no blanks at its ends. -/
theorem trim_text : Text.trim p.text.toList = p.text.toList := by
  -- something is printed on either side
  obtain ⟨d, rest, hleft⟩ := List.exists_cons_of_ne_nil hp.left.isWord.ne_nil
  have hshown : p.shown.map String.toList ≠ [] := by
    unfold Production.shown
    split
    · simp
    · next hempty => simpa using hempty
  obtain ⟨front, last, hlast, hblank⟩ :=
    Text.exists_getLast_intercalate hshown hp.isWord_of_mem_map_shown
  rw [Production.toList_text, hlast]
  apply Text.trim_eq_self
  · simp
  · intro c hc
    rw [hleft] at hc
    obtain rfl : d = c := Option.some.inj hc
    exact hp.left.isWord.not_isBlank d (by rw [hleft]; exact List.mem_cons_self)
  · intro c hc
    rw [← List.append_assoc, List.getLast?_concat] at hc
    rw [← Option.some.inj hc]
    exact hblank

/-- The line of a production is one line. -/
theorem not_newline : ∀ c ∈ p.text.toList, (c == '\n') = false := by
  intro c hc
  have hblank : Text.isBlank '\n' = true := by decide
  rw [beq_eq_false_iff_ne]
  rintro rfl
  rw [Production.toList_text] at hc
  rcases List.mem_append.1 hc with hc | hc
  · rcases List.mem_append.1 hc with hc | hc
    · exact absurd (hp.left.isWord.not_isBlank _ hc) (by rw [hblank]; decide)
    · exact absurd hc (by decide)
  · rcases Text.mem_intercalate_space hc with hc | ⟨w, hw, hc⟩
    · cases hc
    · exact absurd ((hp.isWord_of_mem_map_shown w hw).not_isBlank _ hc) (by rw [hblank]; decide)

end Production.Printable

end Line

/-! ### Printed texts -/

namespace Reading

variable {ps : List Production}

/-- Each printed line is read as its production, and no line is skipped. -/
theorem lines_printed (hps : ∀ p ∈ ps, p.Printable) :
    lines ("\n".intercalate (ps.map Production.text)).toList
      = ps.map fun p => .ok ⟨p.left, [p.right]⟩ := by
  have hnewline : "\n".toList = ['\n'] := rfl
  unfold lines
  rw [String.toList_intercalate, hnewline, List.map_map]
  by_cases hempty : ps = []
  · -- an empty text is one blank line
    subst hempty
    rfl
  · rw [Text.splitWhere_intercalate (by decide) (by simpa using hempty)]
    · -- line by line, whatever the number of the first line is
      clear hempty
      generalize 0 = k
      induction ps generalizing k with
      | nil => rfl
      | cons p ps ih =>
        have hp := hps p List.mem_cons_self
        have hline : line? k p.text.toList = some (.ok ⟨p.left, [p.right]⟩) := by
          rw [line?_eq_some_ok_iff, hp.trim_text, hp.read_text]
        have hrest := ih (fun q hq => hps q (List.mem_cons_of_mem p hq)) (k + 1)
        rw [List.map_cons, List.zipIdx_cons, List.map_cons, ← hrest]
        exact List.filterMap_cons_some hline
    · intro line hline
      obtain ⟨p, hp, rfl⟩ := List.mem_map.1 hline
      exact (hps p hp).not_newline

theorem productions_printed (hps : ∀ p ∈ ps, p.Printable) :
    productions ("\n".intercalate (ps.map Production.text)).toList = ps := by
  unfold productions
  rw [lines_printed hps]
  induction ps with
  | nil => rfl
  | cons p ps ih =>
    have hrest := ih fun q hq => hps q (List.mem_cons_of_mem p hq)
    show p :: _ = p :: ps
    exact congrArg (p :: ·) hrest

theorem skipped_printed (hps : ∀ p ∈ ps, p.Printable) :
    (lines ("\n".intercalate (ps.map Production.text)).toList).filterMap skipped? = [] := by
  rw [lines_printed hps, List.filterMap_map]
  exact List.filterMap_eq_nil_iff.2 fun p _ => rfl

/-- The text of a grammar that was read is read as this grammar, and no line of
    it is skipped. Its names are entered as they were before: the same numbers,
    kinds and lists. So texts that print the same rules have the same grammar. -/
theorem ofText_printed (text : String) :
    ofText (ofText text).grammar.text = ⟨(ofText text).grammar, []⟩ ∧
    Register.ofText (ofText text).grammar.text = Register.ofText text ∧
    ∀ other, (ofText other).grammar.rules.map (ofText other).grammar.ruleText
        = (ofText text).grammar.rules.map (ofText text).grammar.ruleText →
      (ofText other).grammar = (ofText text).grammar ∧
        Register.ofText other = Register.ofText text := by
  have hread : ∀ text, ofText (ofText text).grammar.text = ⟨(ofText text).grammar, []⟩ := by
    intro text
    have hps : ∀ p ∈ productions text.toList, p.Printable :=
      fun _ hp => printable_of_mem_productions hp
    have htext : (ofText text).grammar.text
        = "\n".intercalate ((productions text.toList).map Production.text) :=
      Grammar.text_ofProductions
    rw [htext]
    show (⟨.ofProductions (productions _), _⟩ : Reading) = _
    rw [productions_printed hps, skipped_printed hps]
    rfl
  -- the register says what the grammar says
  have hregister : ∀ {other}, (ofText other).grammar = (ofText text).grammar →
      Register.ofText other = Register.ofText text := by
    intro other h
    rw [Register.ofText_eq, Register.ofText_eq, h]
  refine ⟨hread text, hregister (by rw [hread text]), ?_⟩
  intro other hrules
  have hsame : (ofText other).grammar.text = (ofText text).grammar.text := by
    unfold Grammar.text
    rw [hrules]
  have hother := hread other
  rw [hsame, hread text] at hother
  have hgrammar := (Reading.mk.inj hother).1.symm
  exact ⟨hgrammar, hregister hgrammar⟩

/-- A name may hold arrows and, on the left side, bars. The same two rules on one
    line, and on two lines with a skipped line before them. -/
theorem ofText_printed_of_names :
    let text := "A|→ -> b→c | ε"
    let other := "A|→ b -> c\nA|→-> b→c\n\nA|→ ->"
    (ofText other).grammar.rules.map (ofText other).grammar.ruleText
        = (ofText text).grammar.rules.map (ofText text).grammar.ruleText ∧
      (ofText text).grammar.rules.map (ofText text).grammar.ruleText
        = ["A|→ -> b→c", "A|→ -> ε"] ∧
      ofText (ofText text).grammar.text = ⟨(ofText text).grammar, []⟩ ∧
      (ofText other).grammar = (ofText text).grammar ∧
      Register.ofText other = Register.ofText text := by
  intro text other
  have hrules : (ofText other).grammar.rules.map (ofText other).grammar.ruleText
      = (ofText text).grammar.rules.map (ofText text).grammar.ruleText := by decide
  obtain ⟨hread, -, hsame⟩ := ofText_printed text
  exact ⟨hrules, by decide, hread, hsame other hrules⟩

end Reading

end Predictive
