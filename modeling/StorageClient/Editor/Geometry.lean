import StorageClient.Screen.Rect

/-!
Where the editor and the reader stand on the screen.
-/

namespace StorageClient

structure Geometry where
  window : Rect
deriving DecidableEq, Repr

namespace Geometry

/-- Columns and rows of the window that hold no text. -/
def margin : Nat := 6

/-- The window for a terminal of the given size: at most 120 columns, and a distance of two or
more cells from every edge where the terminal is large enough. -/
def ofTerminal (width height : Nat) : Geometry :=
  ⟨.within 2 2 (min 120 (width - 4)) (min (height - 4) (max 12 (height - 6)))⟩

def ofTextArea (width height : Nat) : Geometry :=
  ⟨.within 2 2 (Word.satAdd16 width margin) (Word.satAdd16 height margin)⟩

def maxWidth (g : Geometry) : Nat := max (g.window.width - margin) 1

def visibleHeight (g : Geometry) : Nat := max (g.window.height - margin) 1

theorem maxWidth_pos (g : Geometry) : 0 < g.maxWidth := Word.max_one_pos _

theorem visibleHeight_pos (g : Geometry) : 0 < g.visibleHeight := Word.max_one_pos _

end Geometry

end StorageClient
