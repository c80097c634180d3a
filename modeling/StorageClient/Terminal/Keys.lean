import StorageClient.Event
import StorageClient.Text.Utf8

/-!
The keys in what a terminal in raw mode sends. A byte stream is read in the pieces in which it
arrives, so a lone escape character is the Esc key.
-/

namespace StorageClient.Keys

def plain (code : KeyCode) : Key := { code }

def ofControl (c : Char) : Key :=
  match c with
  | '\r' => plain .enter
  | '\t' => plain .tab
  | '\x1b' => plain .esc
  | '\x7f' => plain .backspace
  | c => { code := .char (Char.ofNat (c.toNat % 32 + 96)), mods := { ctrl := true } }

def ofChar (c : Char) : Key :=
  if c.toNat < 0x20 ∨ c = '\x7f' then ofControl c
  else { code := .char c, mods := { shift := c.isUpper } }

def ofLetter : Char → Option Key
  | 'A' => some (plain .up)
  | 'B' => some (plain .down)
  | 'C' => some (plain .right)
  | 'D' => some (plain .left)
  | 'H' => some (plain .home)
  | 'F' => some (plain .endKey)
  | 'Z' => some (plain .backTab)
  | _ => none

def ofNumber : Char → Option Key
  | '2' => some (plain .insert)
  | '3' => some (plain .delete)
  | '5' => some (plain .pageUp)
  | '6' => some (plain .pageDown)
  | _ => none

/-- The keys of the characters that arrived together. Unknown control sequences are dropped. -/
def ofText : Text → List Key
  | '\x1b' :: '[' :: n :: '~' :: t => (ofNumber n).toList ++ ofText t
  | '\x1b' :: '[' :: c :: t => (ofLetter c).toList ++ ofText t
  | '\x1b' :: 'O' :: c :: t => (ofLetter c).toList ++ ofText t
  | '\x1b' :: c :: t =>
    if c.toNat < 0x20 then plain .esc :: ofText (c :: t)
    else { ofChar c with mods := { (ofChar c).mods with alt := true } } :: ofText t
  | c :: t => ofChar c :: ofText t
  | [] => []

def ofBytes (bs : List UInt8) : List Key := ofText (Utf8.decodeLossy bs)

end StorageClient.Keys
