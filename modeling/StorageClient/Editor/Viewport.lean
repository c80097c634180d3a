import StorageClient.Fault

/-!
The window of rows that is shown of a longer list of lines.
-/

namespace StorageClient

@[ext]
structure Viewport where
  scroll : Nat
  height : Nat
  height_pos : 0 < height
deriving Repr

namespace Viewport

instance : DecidableEq Viewport := fun _ _ => decidable_of_iff' _ Viewport.ext_iff

/-- A window at the top. A height of zero acts as one. -/
def top (height : Nat) : Viewport := ⟨0, max height 1, Word.max_one_pos height⟩

/-- The largest scroll at which no row is wasted below the last of `n` lines. -/
def maxScroll (v : Viewport) (n : Nat) : Nat := n - v.height

def contains (v : Viewport) (row : Nat) : Except Fault Bool :=
  if row < v.scroll then .ok false
  else do
    Word.check (v.scroll + v.height) row
    return row < v.scroll + v.height

/-- The rows shown of `n` lines, from the first to before the second. -/
def visibleRows (v : Viewport) (n : Nat) : Except Fault (Nat × Nat) := do
  Word.check (v.scroll + v.height) n
  return (min v.scroll n, min (v.scroll + v.height) n)

/-- Scrolls as little as shows `row`, and not past the end of `n` lines. The scroll so far may be
in range of one line more, which an edit has just taken away. -/
def follow (v : Viewport) (row n : Nat) : Except Fault Viewport :=
  if row < v.scroll then .ok { v with scroll := min row (v.maxScroll n) }
  else do
    Word.check (v.scroll + v.height) (max row n + 1)
    if row < v.scroll + v.height then
      return { v with scroll := min v.scroll (v.maxScroll n) }
    else
      Word.check (row + 1) n
      return { v with scroll := min (row + 1 - v.height) (v.maxScroll n) }

/-- A new height: the scroll is brought back into range, then `row` into view. -/
def resize (v : Viewport) (height row n : Nat) : Except Fault Viewport :=
  follow ⟨min v.scroll (n - max height 1), max height 1, Word.max_one_pos height⟩ row n

def scrollBy (v : Viewport) (d : Int) (n : Nat) : Viewport :=
  { v with scroll := min (v.scroll + d).toNat (v.maxScroll n) }

end Viewport

end StorageClient
