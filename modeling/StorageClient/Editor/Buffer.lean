import StorageClient.Fault
import StorageClient.Text.Wrap

/-!
A buffer of display lines and the four edits on it. Each edit replaces one or two neighbouring
lines and leaves the others as they are. Positions count characters.
-/

namespace StorageClient

structure Cursor where
  row : Nat := 0
  col : Nat := 0
deriving DecidableEq, Repr

@[ext]
structure Buffer where
  lines : List Text
  maxWidth : Nat
  maxWidth_pos : 0 < maxWidth
deriving Repr

namespace Buffer

instance : DecidableEq Buffer := fun _ _ => decidable_of_iff' _ Buffer.ext_iff

/-- The wrapped lines of a text. A width of zero acts as one. -/
def ofText (t : Text) (width : Nat) : Buffer := ⟨Text.wrap t (max width 1), max width 1, Word.max_one_pos width⟩

def count (b : Buffer) : Nat := b.lines.length

/-- The length of a line, zero for a line that is not there. -/
def lineLength (b : Buffer) (row : Nat) : Nat := (b.lines[row]?.getD []).length

/-- Changes the width that later insertions split at. The lines stay. -/
def setMaxWidth (b : Buffer) (width : Nat) : Buffer := ⟨b.lines, max width 1, Word.max_one_pos width⟩

def flatten (b : Buffer) : Text := b.lines.flatten

/-- Replaces `n` lines from `row` on. -/
def splice (b : Buffer) (row n : Nat) (new : List Text) : Buffer :=
  { b with lines := b.lines.take row ++ new ++ b.lines.drop (row + n) }

def lineAt (b : Buffer) (row : Nat) : Except Fault Text :=
  match b.lines[row]? with
  | some l => .ok l
  | none => .error .missingRow

/-- Breaks a line at a column, at its end if the column lies past it. -/
def split (b : Buffer) (row col : Nat) : Except Fault (Buffer × Cursor) := do
  let l ← b.lineAt row
  return (b.splice row 1 [l.take col, l.drop col], ⟨row + 1, 0⟩)

/-- Inserts a character before the cursor. A line that reaches the width is split behind the new
character, or at the width if that comes first. -/
def insert (b : Buffer) (pos : Cursor) (c : Char) : Except Fault (Buffer × Cursor) := do
  let l ← b.lineAt pos.row
  let l' := l.take pos.col ++ c :: l.drop pos.col
  Word.check (pos.col + 1) (l.length + 1)
  if l'.length < b.maxWidth then
    return (b.splice pos.row 1 [l'], ⟨pos.row, pos.col + 1⟩)
  else
    let k := min (pos.col + 1) b.maxWidth
    return (b.splice pos.row 1 [l'.take k, l'.drop k], ⟨pos.row + 1, pos.col + 1 - k⟩)

def delete (b : Buffer) (row col : Nat) : Except Fault (Buffer × Cursor) := do
  if col = 0 then throw .noCharBefore
  let l ← b.lineAt row
  if l.length < col then throw .missingColumn
  return (b.splice row 1 [l.take (col - 1) ++ l.drop col], ⟨row, col - 1⟩)

/-- The first piece that has position `n`, counted over the pieces, and the column there. A
position between two pieces is the end of the earlier one. -/
def locate : List Text → Nat → Option Cursor
  | [], _ => none
  | p :: ps, n =>
    if n ≤ p.length then some ⟨0, n⟩
    else (locate ps (n - p.length)).map fun c => ⟨c.row + 1, c.col⟩

/-- Appends a line to the one above it. A joined line longer than the width is cut into chunks;
the cursor lands where the lines were joined. -/
def merge (b : Buffer) (row : Nat) : Except Fault (Buffer × Cursor) := do
  if row = 0 then throw .noLineAbove
  let l ← b.lineAt row
  let above ← b.lineAt (row - 1)
  let joined := above ++ l
  if joined.length ≤ b.maxWidth then
    return (b.splice (row - 1) 2 [joined], ⟨row - 1, above.length⟩)
  else
    let pieces := Text.wrap joined b.maxWidth
    let c := (locate pieces above.length).getD ⟨0, above.length⟩
    return (b.splice (row - 1) 2 pieces, ⟨row - 1 + c.row, c.col⟩)

@[simp] theorem maxWidth_splice (b : Buffer) (row n : Nat) (new : List Text) :
    (b.splice row n new).maxWidth = b.maxWidth := rfl

theorem ofText_lines_ne_nil (t : Text) (w : Nat) : (ofText t w).lines ≠ [] := Text.wrap_ne_nil t _

end Buffer

end StorageClient
