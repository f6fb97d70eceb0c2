/-! # Text for a terminal

A terminal obeys the sequences that an escape character begins, and shows the rest. `visible` is
the text that is left where there is no terminal: without sequences and without the controls that
are not white space. Text without controls is left as it is (`visible_eq_self`). -/

namespace Formula.Text.Terminal

/-- How far a sequence has been read. -/
inductive State where
  /-- Outside of all sequences. -/
  | text
  /-- Behind an escape character. -/
  | escape
  /-- Behind an escape character and some of `' '` to `'/'`. -/
  | escapeIntermediate
  /-- In a control sequence, which begins with `[`. -/
  | control
  /-- At the beginning of a device control sequence, which begins with `P`. -/
  | deviceEntry
  /-- In the parameters of a device control sequence. -/
  | deviceParameters
  /-- Behind the parameters of a device control sequence. -/
  | deviceIntermediate
  /-- In a string for the device. -/
  | deviceString
  /-- In a command to the system, which begins with `]`. -/
  | command
  deriving DecidableEq, Repr

def between (low high c : Char) : Bool :=
  low ≤ c && c ≤ high

/-- Whether one of the bytes of the character is the one that ends a device string. -/
def endsString (c : Char) : Bool :=
  (String.utf8EncodeChar c).contains 0x9C

namespace State

/-- The state behind a character. -/
def next (state : State) (c : Char) : State :=
  if c = '\x1b' then escape
  else if c = '\x18' || c = '\x1a' then text
  else match state with
    | text => text
    | escape =>
      if between ' ' '/' c then escapeIntermediate
      else if c = '[' then control
      else if c = ']' then command
      else if c = 'P' then deviceEntry
      else if c = 'X' || c = '^' || c = '_' then deviceString
      else if between '0' '~' c then text
      else escape
    | escapeIntermediate => if between '0' '~' c then text else escapeIntermediate
    | control => if between '@' '~' c then text else control
    | deviceEntry =>
      if between '@' '~' c then deviceString
      else if between '0' '?' c then deviceParameters
      else if between ' ' '/' c then deviceIntermediate
      else deviceEntry
    | deviceParameters =>
      if between '<' '~' c then deviceString
      else if between ' ' '/' c then deviceIntermediate
      else deviceParameters
    | deviceIntermediate => if between '0' '~' c then deviceString else deviceIntermediate
    | deviceString => if endsString c then text else deviceString
    | command => if c = '\x07' then text else command

/-- Whether a character is shown. The controls that are white space also show in the middle of a
sequence, unless it has a string. -/
def shows (state : State) (c : Char) : Bool :=
  let space := c = '\t' || c = '\n' || c = '\x0c' || c = '\r'
  match state with
  | text => space || between ' ' '~' c || '\u0080' ≤ c
  | escape | escapeIntermediate | control => space
  | _ => false

end State

/-- The characters that are shown from a state on. What follows a shown character is shown up to
the next control, even when the sequence around it is still open. -/
def visibleFrom (state : State) (showing : Bool) : List Char → List Char
  | [] => []
  | c :: cs =>
    if state.shows c || (showing && State.text.shows c) then
      c :: visibleFrom (if '\u0080' ≤ c then .text else state) true cs
    else visibleFrom (state.next c) false cs

/-- The text without sequences and without the controls that are not white space. -/
def visible (s : String) : String :=
  String.ofList (visibleFrom .text false s.toList)

/-- The text between the sequences that turn bold letters on and off. -/
def bold (s : String) : String :=
  "\x1b[1m" ++ s ++ "\x1b[0m"

theorem visibleFrom_text_eq_self {cs : List Char} (h : ∀ c ∈ cs, State.text.shows c) :
    ∀ showing, visibleFrom .text showing cs = cs := by
  induction cs with
  | nil => simp [visibleFrom]
  | cons c cs ih =>
    intro showing
    have hc : State.text.shows c = true := h c (by simp)
    simp [visibleFrom, hc, ih (fun d hd => h d (by simp [hd]))]

theorem visible_eq_self {s : String} (h : ∀ c ∈ s.toList, State.text.shows c) : visible s = s := by
  rw [visible, visibleFrom_text_eq_self h, String.ofList_toList]

end Formula.Text.Terminal
