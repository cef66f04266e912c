/-!
# Control sequences

A text for people must not steer the terminal that shows it. Controls other than the blanks of a
line, and the sequences that an escape character opens, are removed from a text (`plain`). A
sequence is read as a terminal reads it: a short escape ends with its final character, a control
sequence with its final letter, and a control string with its terminator. A cancelling control
ends any sequence, and another escape character opens a new one.
-/

namespace StyleForest.Text

/-- A sequence that has been opened and not been closed. -/
inductive ControlSequence where
  /-- Nothing but the escape character has been read. -/
  | escape
  /-- An escape with intermediate characters, which waits for the final one. -/
  | intermediate
  /-- A control sequence, which runs to its final letter. -/
  | control
  /-- The start of a device control string. -/
  | device
  /-- The parameters of a device control string. -/
  | deviceParameters
  /-- The intermediate characters of a device control string. -/
  | deviceIntermediate
  /-- The contents of a control string. -/
  | string
  /-- The contents of a command to the operating system, which a bell may end. -/
  | command
  deriving DecidableEq, Repr

/-- What is being read. -/
inductive Display where
  /-- Text that is shown. -/
  | text
  /-- A sequence, which is not shown. -/
  | inside (sequence : ControlSequence)
  /-- Text after a blank inside a sequence; the sequence goes on at the next control. -/
  | suspended (sequence : ControlSequence)
  deriving DecidableEq, Repr

/-- The character belongs to the ASCII range from the first to the second character. -/
def isBetween (low high c : Char) : Bool :=
  low ≤ c && c ≤ high

/-- The blanks of the ASCII range that are controls. -/
def isBlankControl (c : Char) : Bool :=
  c == '\t' || c == '\n' || c == '\x0c' || c == '\r'

/-- A character of a text is shown unless it is a control; blanks are shown all the same. -/
def isShown (c : Char) : Bool :=
  isBlankControl c || (' ' ≤ c && c != '\x7f')

/-- A control that ends whatever sequence is open. -/
def isCancel (c : Char) : Bool :=
  c == '\x18' || c == '\x1a'

/-- One of the bytes of the character is the one that terminates a control string. -/
def hasTerminator (c : Char) : Bool :=
  (String.utf8EncodeChar c).contains 0x9C

namespace ControlSequence

/-- The blanks inside a sequence of this kind are shown. -/
def showsBlanks : ControlSequence → Bool
  | escape | intermediate | control => true
  | _ => false

/-- What is read after one more character of a sequence, which neither cancels it nor opens
another one. Characters that cannot belong to the sequence are passed over. -/
def advance (sequence : ControlSequence) (c : Char) : Display :=
  match sequence with
  | escape =>
    if isBetween ' ' '/' c then .inside intermediate
    else if c = '[' then .inside control
    else if c = ']' then .inside command
    else if c = 'P' then .inside device
    else if c = 'X' || c = '^' || c = '_' then .inside string
    else if isBetween '0' '~' c then .text
    else .inside escape
  | intermediate => if isBetween '0' '~' c then .text else .inside intermediate
  | control => if isBetween '@' '~' c then .text else .inside control
  | device =>
    if isBetween ' ' '/' c then .inside deviceIntermediate
    else if isBetween '0' '?' c then .inside deviceParameters
    else if isBetween '@' '~' c then .inside string
    else .inside device
  | deviceParameters =>
    if isBetween ' ' '/' c then .inside deviceIntermediate
    else if isBetween '<' '~' c then .inside string
    else .inside deviceParameters
  | deviceIntermediate =>
    if isBetween '0' '~' c then .inside string else .inside deviceIntermediate
  | string => if hasTerminator c then .text else .inside string
  | command => if c = '\x07' then .text else .inside command

end ControlSequence

namespace Display

/-- Reads one character: whether it is shown, and what is read after it. -/
def step (display : Display) (c : Char) : Bool × Display :=
  if c = '\x1b' then
    (false, inside .escape)
  else if isCancel c then
    (false, text)
  else
    match display with
    | text => (isShown c, text)
    | inside sequence =>
      if sequence.showsBlanks && isBlankControl c then (true, suspended sequence)
      else (false, sequence.advance c)
    | suspended sequence =>
      if isShown c then (true, if c.toNat < 128 then suspended sequence else text)
      else (false, inside sequence)

/-- The characters of a text that are shown. -/
def shown (display : Display) : List Char → List Char
  | [] => []
  | c :: rest =>
    let (isVisible, next) := display.step c
    if isVisible then c :: next.shown rest else next.shown rest

end Display

/-- The text without controls and control sequences. -/
def plain (text : String) : String :=
  String.ofList (Display.text.shown text.toList)

/-- Only characters that are no controls, and blanks, are ever shown. -/
theorem isShown_of_step {display : Display} {c : Char} (h : (display.step c).1 = true) :
    isShown c = true := by
  unfold Display.step at h
  split at h
  · simp at h
  · split at h
    · simp at h
    · split at h
      · exact h
      · split at h
        · next hb => simp_all [isShown]
        · simp at h
      · split at h
        · assumption
        · simp at h

/-- Nothing that is left in a text steers a terminal. -/
theorem isShown_of_mem_shown {display : Display} {text : List Char} {c : Char}
    (h : c ∈ display.shown text) : isShown c = true := by
  induction text generalizing display with
  | nil => simp [Display.shown] at h
  | cons head rest ih =>
    simp only [Display.shown] at h
    split at h
    · next hv =>
      rcases List.mem_cons.1 h with rfl | hr
      · exact isShown_of_step hv
      · exact ih hr
    · exact ih h

/-- A text without controls is left as it is. -/
theorem shown_text_of_forall {text : List Char} (h : ∀ c ∈ text, isShown c = true) :
    Display.text.shown text = text := by
  induction text with
  | nil => rfl
  | cons c rest ih =>
    have hc := h c (by simp)
    have hr := ih fun d hd => h d (by simp [hd])
    have hs : Display.text.step c = (true, Display.text) := by
      have he : c ≠ '\x1b' := by rintro rfl; revert hc; decide
      have hk : isCancel c = false := by
        simp only [isCancel, Bool.or_eq_false_iff, beq_eq_false_iff_ne]
        constructor <;> (rintro rfl; revert hc; decide)
      simp [Display.step, he, hk, hc]
    simp [Display.shown, hs, hr]

end StyleForest.Text
