/-! # Terminal control

    A terminal obeys control characters and control sequences instead of
    showing them. The plain form of a text leaves them out, so that it reads
    the same wherever it is sent. Of the control characters only the tab, the
    line feed, the form feed and the carriage return stay.

    This is what `env_logger`, the writer of the program's log, does with each
    record where its output is not a terminal. Only the lines of the log are
    made plain; the outputs themselves are printed as they are.

    Sequences begin with the escape character. Some are a few characters long
    and end with a final character of their own. Others are strings of any
    length: a string terminator ends them, and a command for the operating
    system also ends with a bell.
-/

namespace Predictive.Text.Terminal

/-! ### Characters -/

/-- A control character that moves on in the text. -/
def isBlankControl (c : Char) : Bool := c = '\t' || c = '\n' || c = '\x0c' || c = '\r'

/-- Outside of sequences, the character is shown. -/
def isShown (c : Char) : Bool := isBlankControl c || (0x20 ≤ c.toNat && c ≠ '\x7f')

/-- A code point in a range. -/
def within (low high : Nat) (c : Char) : Bool := low ≤ c.toNat && c.toNat ≤ high

/-- The character ends a string: its encoding holds the string terminator. -/
def terminatesString (c : Char) : Bool := (String.utf8EncodeChar c).contains 0x9C

/-! ### Reading -/

/-- A sequence that is a few characters long. -/
inductive Sequence where
  /-- Only the escape character was read. -/
  | escape
  /-- Intermediate characters were read, and a final one has to follow. -/
  | intermediate
  /-- The parameters after `ESC [`. -/
  | parameters
  deriving DecidableEq, Repr

/-- What comes before the data of a device control string, after `ESC P`. -/
inductive Header where
  | entry
  | parameters
  | intermediate
  deriving DecidableEq, Repr

/-- What the characters read so far leave open. -/
inductive State where
  /-- Nothing: what follows is text. -/
  | text
  /-- A sequence. -/
  | sequence (s : Sequence)
  /-- A sequence with a blank control in it. Text is shown up to the next
      control, with which the sequence goes on. -/
  | interrupted (s : Sequence)
  /-- The header of a device control string. -/
  | header (h : Header)
  /-- A string: the data of a device control string, or what follows `ESC X`,
      `ESC ^` and `ESC _`. -/
  | string
  /-- A command for the operating system, after `ESC ]`. -/
  | command
  deriving DecidableEq, Repr

/-- What a character of a sequence leaves open. Characters that have no place
    in the sequence are passed over. -/
def Sequence.next (s : Sequence) (c : Char) : State :=
  match s with
  | escape =>
    if c = '[' then .sequence parameters
    else if c = ']' then .command
    else if c = 'P' then .header .entry
    else if c = 'X' || c = '^' || c = '_' then .string
    else if within 0x20 0x2F c then .sequence intermediate
    else if within 0x30 0x7E c then .text
    else .sequence escape
  | intermediate => if within 0x30 0x7E c then .text else .sequence intermediate
  | parameters => if within 0x40 0x7E c then .text else .sequence parameters

/-- What a character of a header leaves open. A final character, or one out of
    its order, starts the data. -/
def Header.next (h : Header) (c : Char) : State :=
  match h with
  | entry =>
    if within 0x20 0x2F c then .header intermediate
    else if within 0x30 0x3F c then .header parameters
    else if within 0x40 0x7E c then .string
    else .header entry
  | parameters =>
    if within 0x20 0x2F c then .header intermediate
    else if within 0x3C 0x7E c then .string
    else .header parameters
  | intermediate => if within 0x30 0x7E c then .string else .header intermediate

/-- Reads a character; also whether it is shown. An escape character begins a
    sequence everywhere, and the characters cancel and substitute end all that
    is open. -/
def State.step (s : State) (c : Char) : State × Bool :=
  if c = '\x1b' then (.sequence .escape, false)
  else if c = '\x18' || c = '\x1a' then (.text, false)
  else
    match s with
    | text => (.text, isShown c)
    | sequence q => if isBlankControl c then (.interrupted q, true) else (q.next c, false)
    | interrupted q =>
      -- a character beyond ASCII has no place in the sequence and closes it
      if isShown c then (if c.toNat < 0x80 then .interrupted q else .text, true)
      else (.sequence q, false)
    | header h => (h.next c, false)
    | string => (if terminatesString c then .text else .string, false)
    | command => (if c = '\x07' then .text else .command, false)

/-- The characters that are shown. -/
def State.shown (s : State) : List Char → List Char
  | [] => []
  | c :: rest =>
    let (t, visible) := s.step c
    if visible then c :: t.shown rest else t.shown rest

/-- The text without terminal control. -/
def plain (text : String) : String := String.ofList (State.text.shown text.toList)

/-! ### What is left -/

/-- A text of shown characters stays as it is. -/
theorem shown_text_of_isShown {cs : List Char} (h : ∀ c ∈ cs, isShown c = true) :
    State.text.shown cs = cs := by
  induction cs with
  | nil => rfl
  | cons c rest ih =>
    have hc := h c (by simp)
    have hstep : State.text.step c = (.text, true) := by
      have h1 : c ≠ '\x1b' := by rintro rfl; revert hc; decide
      have h2 : c ≠ '\x18' := by rintro rfl; revert hc; decide
      have h3 : c ≠ '\x1a' := by rintro rfl; revert hc; decide
      simp [State.step, h1, h2, h3, hc]
    simp [State.shown, hstep, ih fun d hd => h d (by simp [hd])]

/-- Only characters that are shown outside of sequences are left. -/
theorem isShown_of_step {s : State} {c : Char} (h : (s.step c).2 = true) :
    isShown c = true := by
  unfold State.step at h
  split at h
  · simp at h
  split at h
  · simp at h
  split at h
  · exact h
  · split at h
    · next hb => simp [isShown, hb]
    · simp at h
  · split at h
    · next hs => exact hs
    · simp at h
  all_goals simp at h

/-- No control but the blank ones is left, whatever was open before. -/
theorem isShown_of_mem_shown {cs : List Char} {s : State} {c : Char} (h : c ∈ s.shown cs) :
    isShown c = true := by
  induction cs generalizing s with
  | nil => simp [State.shown] at h
  | cons d rest ih =>
    simp only [State.shown] at h
    split at h
    · next hv =>
      rcases List.mem_cons.1 h with rfl | h
      · exact isShown_of_step hv
      · exact ih h
    · exact ih h

end Predictive.Text.Terminal
