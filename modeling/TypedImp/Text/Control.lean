/-!
# Text without terminal control

A terminal is told what to do by control characters and by the control sequences that an escape
character begins.  What is written elsewhere leaves both out and keeps only what a reader sees.

Where a sequence ends depends on its kind, so the scan keeps the part of a sequence it is in.  A
line break or tab inside of a sequence is not part of it: it is kept, and so is the text behind it
up to the next control character, at which the sequence goes on.

* `ControlPart`, `ControlPart.next`: the parts of control sequences and how a character moves on.
* `Text.keepVisible`, `Text.withoutControl`: a text without control characters and sequences.
-/

namespace TypedImp

/-- What the characters so far have begun. -/
inductive ControlPart where
  /-- Nothing: the next character is part of the text. -/
  | text
  /-- An escape character. -/
  | escape
  /-- An escape sequence of more than two characters. -/
  | escapeBody
  /-- A control sequence, which ends with a letter or a sign like one. -/
  | sequence
  /-- A command for the operating system, which ends with a bell. -/
  | command
  /-- A device control string, up to its parameters. -/
  | deviceStart
  /-- The parameters of a device control string. -/
  | deviceParameters
  /-- What may stand between the parameters of a device control string and its content. -/
  | deviceBody
  /-- The content of a control string, which ends with a terminator. -/
  | string
deriving DecidableEq, Repr

namespace ControlPart

/-- Whether the code point of a character lies between two bounds, both included. -/
def within (low high : Nat) (c : Char) : Bool := low ≤ c.toNat && c.toNat ≤ high

/-- Whether one of the bytes of a character is the terminator of control strings. -/
def holdsTerminator (c : Char) : Bool := (String.utf8EncodeChar c).contains 0x9C

/-- What follows an escape character. -/
def afterEscape (c : Char) : ControlPart :=
  if within 0x20 0x2F c then escapeBody
  else if c = '[' then sequence
  else if c = ']' then command
  else if c = 'P' then deviceStart
  else if c = 'X' ∨ c = '^' ∨ c = '_' then string
  else if within 0x30 0x7E c then text
  else escape

/-- The part after the character `c`.  An escape character begins a new sequence anywhere, and two
other control characters cancel any sequence. -/
def next (part : ControlPart) (c : Char) : ControlPart :=
  if c = '\x1b' then escape
  else if c = '\x18' ∨ c = '\x1a' then text
  else
    match part with
    | text => text
    | escape => afterEscape c
    | escapeBody => if within 0x30 0x7E c then text else escapeBody
    | sequence => if within 0x40 0x7E c then text else sequence
    | command => if c = '\x07' then text else command
    | deviceStart =>
      if within 0x20 0x2F c then deviceBody
      else if within 0x30 0x3F c then deviceParameters
      else if within 0x40 0x7E c then string
      else deviceStart
    | deviceParameters =>
      if within 0x20 0x2F c then deviceBody
      else if within 0x3C 0x7E c then string
      else deviceParameters
    | deviceBody => if within 0x30 0x7E c then string else deviceBody
    | string => if holdsTerminator c then text else string

/-- Whether a line break or a tab inside of this part is kept. -/
def keepsBreaks : ControlPart → Bool
  | text | escape | escapeBody | sequence => true
  | command | deviceStart | deviceParameters | deviceBody | string => false

end ControlPart

namespace Text

/-- The control characters that a text may hold: tab, line feed, form feed and carriage return. -/
def isBreak (c : Char) : Bool := c = '\t' || c = '\n' || c = '\x0c' || c = '\r'

/-- Whether a character is part of a text outside of control sequences. -/
def isVisible (c : Char) : Bool :=
  isBreak c || ControlPart.within 0x20 0x7E c || 0x80 ≤ c.toNat

/-- The visible characters of a text.  While `resumed` holds, text goes on inside of a sequence. -/
def keepVisible : ControlPart → (resumed : Bool) → List Char → List Char
  | _, _, [] => []
  | part, resumed, c :: cs =>
    if isVisible c && (resumed || part = .text) then
      -- Beyond ASCII a character ends what it interrupts.
      c :: keepVisible (if 0x80 ≤ c.toNat then .text else part) true cs
    else if isBreak c && part.keepsBreaks then c :: keepVisible part true cs
    else keepVisible (part.next c) false cs

/-- A text without its control characters and control sequences. -/
def withoutControl (s : String) : String := String.ofList (keepVisible .text false s.toList)

end Text

end TypedImp
