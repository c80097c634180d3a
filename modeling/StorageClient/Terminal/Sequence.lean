import StorageClient.Text.Basic

/-!
Control sequences in a text, and what a terminal shows of it without them. A sequence begins with an
escape character; the one after it says how far the sequence goes.
-/

namespace StorageClient.Sequence

inductive State where
  /-- In plain text. -/
  | ground
  /-- Behind an escape character. -/
  | escape
  /-- In a sequence that its first letter, digit or sign from `0` on ends. -/
  | marked
  /-- In a sequence whose parameters a letter or a sign from `@` on ends. -/
  | parameters
  /-- In a string that a bell ends. -/
  | command
  /-- In the parameters before a string. -/
  | header
  /-- In a string that a terminator ends. -/
  | body
deriving DecidableEq, Repr

def isBetween (low high : Nat) (c : Char) : Bool := low ≤ c.toNat && c.toNat ≤ high

/-- The byte that terminates strings. It also does so as part of a character. -/
def hasTerminator (c : Char) : Bool := (String.utf8EncodeChar c).contains 0x9C

/-- The state behind a character that is not shown. Escape begins a new sequence anywhere; cancel
and substitute end any. -/
def State.next (s : State) (c : Char) : State :=
  if c = '\x1b' then .escape
  else if c = '\x18' ∨ c = '\x1a' then .ground
  else match s with
    | .ground => .ground
    | .escape =>
      if isBetween 0x20 0x2F c then .marked
      else if c = '[' then .parameters
      else if c = ']' then .command
      else if c = 'P' then .header
      else if c = 'X' ∨ c = '^' ∨ c = '_' then .body
      else if isBetween 0x30 0x7E c then .ground
      else .escape
    | .marked => if isBetween 0x30 0x7E c then .ground else .marked
    | .parameters => if isBetween 0x40 0x7E c then .ground else .parameters
    | .command => if c = '\x07' then .ground else .command
    | .header => if isBetween 0x40 0x7E c then .body else .header
    | .body => if hasTerminator c then .ground else .body

def isSpacing (c : Char) : Bool := c == '\t' || c == '\n' || c == '\x0c' || c == '\r'

/-- Characters of plain text: no control characters but white space, and those past U+007F. -/
def isPlain (c : Char) : Bool := isSpacing c || (0x20 ≤ c.toNat && c.toNat != 0x7F)

def State.shows (s : State) (c : Char) : Bool :=
  match s with
  | .ground => isPlain c
  | .escape | .marked | .parameters => isSpacing c
  | .command | .header | .body => false

/-- What is shown of a text. White space inside a sequence interrupts it: all plain text is shown up
to the next control character, where the sequence goes on unless a character past U+007F has ended
it. -/
def visible (s : State) (interrupted : Bool) : Text → Text
  | [] => []
  | c :: t =>
    if interrupted && isPlain c || s.shows c then
      c :: visible (if c.toNat < 0x80 then s else .ground) true t
    else visible (s.next c) false t

def strip (t : Text) : Text := visible .ground false t

end StorageClient.Sequence
