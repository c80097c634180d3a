import StorageClient.Editor.Buffer

/-!
Cursor motions over the lines of a buffer. Moves to the left and right cross line ends, so that
wrapped pieces read as one text.
-/

namespace StorageClient

inductive Direction where
  | left
  | right
  | up
  | down
deriving DecidableEq, Repr

namespace Cursor

def isWithin (c : Cursor) (b : Buffer) : Bool := c.row < b.count && c.col ≤ b.lineLength c.row

def rowBelow? (row : Nat) (b : Buffer) : Except Fault (Option Nat) := do
  Word.check (row + 1) b.count
  return if row + 1 < b.count then some (row + 1) else none

/-- The cursor after one step, unchanged where there is nowhere to go. -/
def moved (c : Cursor) (d : Direction) (b : Buffer) : Except Fault Cursor :=
  match d with
  | .left =>
    if 0 < c.col then .ok ⟨c.row, c.col - 1⟩
    else if 0 < c.row then .ok ⟨c.row - 1, b.lineLength (c.row - 1)⟩
    else .ok c
  | .right =>
    if c.col < b.lineLength c.row then .ok ⟨c.row, c.col + 1⟩
    else do
      match ← rowBelow? c.row b with
      | some r => return ⟨r, 0⟩
      | none => return c
  | .up =>
    if 0 < c.row then .ok ⟨c.row - 1, min c.col (b.lineLength (c.row - 1))⟩ else .ok c
  | .down => do
    match ← rowBelow? c.row b with
    | some r => return ⟨r, min c.col (b.lineLength r)⟩
    | none => return c

end Cursor

end StorageClient
