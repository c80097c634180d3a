import StorageClient.Screen.Grid
import StorageClient.Text.Cluster

/-!
What a terminal shows. It is sent only cells that differ from those before, and none that a wide
symbol covers, so a covered cell stays blank when it comes to light unchanged. What is sent besides, to
clear the cells behind an emoji, is left out.
-/

namespace StorageClient

/-- The cells that were drawn last, and the symbols that stand on the terminal, row by row. -/
structure Display where
  grid : Grid
  shown : List (List Text)

namespace Display
open Text

def blank (area : Rect) : Display :=
  ⟨.blank area, List.replicate area.height (List.replicate area.width [' '])⟩

/-- The cells of a row that are sent, with their columns from `x` on, when others have been drawn
before. The first `covered` cells lie behind a wide symbol. -/
def changes (x covered : Nat) : List Cell → List Cell → List (Nat × Cell)
  | old :: os, new :: ns =>
    match covered with
    | covered + 1 => changes (x + 1) covered os ns
    | 0 =>
      let rest := changes (x + 1) (columns new.shown - 1) os ns
      if new = old then rest else (x, new) :: rest
  | _, _ => []

/-- A row from column `x` on after cells are written over it, in the order of their columns. Cells
behind a wide symbol become blank; the first `covered` ones are such. -/
def write (x covered : Nat) : List (Nat × Cell) → List Text → List Text
  | _, [] => []
  | [], old :: row => (if 0 < covered then [' '] else old) :: write (x + 1) (covered - 1) [] row
  | (x', c) :: cs, old :: row =>
    if x' = x then c.shown :: write (x + 1) (columns c.shown - 1) cs row
    else (if 0 < covered then [' '] else old) :: write (x + 1) (covered - 1) ((x', c) :: cs) row

/-- The terminal for an area: one of another size is emptied. -/
def fit (d : Display) (area : Rect) : Display := if d.grid.area = area then d else blank area

def sent (d : Display) (g : Grid) : List (List (Nat × Cell)) :=
  g.area.rows.map fun y => changes 0 0 ((d.fit g.area).grid.row y) (g.row y)

def refresh (d : Display) (g : Grid) : Display :=
  ⟨g, (d.sent g).zipWith (write 0 0) (d.fit g.area).shown⟩

def rowTexts (d : Display) : List Text :=
  d.shown.map fun row => dropEndWhile (· == ' ') row.flatten

end Display

end StorageClient
