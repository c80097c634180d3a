import StorageClient.Screen.Grid
import StorageClient.Text.Blank
import StorageClient.Text.Cluster

/-!
The three things that widgets are made of: a cleared rectangle, a frame with a title, and a
paragraph of lines. Each is a list of strokes and first cut to the area of the screen.
-/

namespace StorageClient.Draw
open Text

def clear (area r : Rect) : List Stroke :=
  let r := r.inter area
  r.rows.flatMap fun y => r.columns.map fun x => ⟨x, y, .clear⟩

def border (symbol : Char) (x y : Nat) : Stroke := ⟨x, y, .put [symbol] .plain⟩

/-- The four sides and corners of a rectangle that is not empty; later strokes win. -/
def borders (r : Rect) : List Stroke :=
  let right := r.right - 1
  let bottom := r.bottom - 1
  r.rows.map (border '│' r.x ·) ++ r.columns.map (border '─' · r.y) ++
    r.rows.map (border '│' right ·) ++ r.columns.map (border '─' · bottom) ++
    [border '┘' right bottom, border '┐' right r.y, border '└' r.x bottom, border '┌' r.x r.y]

/-- Clusters of a title from column `x` up to column `stop`. A cluster without a width of its own
joins the cell before it, and the further cells of a wide one are emptied. -/
def titleClusters (start stop y : Nat) (style : Style) : Nat → List Text → List Stroke
  | _, [] => []
  | x, g :: gs =>
    let w := columns g
    let next := x + w
    if stop < next then []
    else
      let edit : Stroke :=
        if w = 0 ∧ start < x then ⟨x - 1, y, .append g style⟩ else ⟨x, y, .put g style⟩
      let hidden := (List.range (w - 1)).map fun i => (⟨x + 1 + i, y, .clear⟩ : Stroke)
      edit :: hidden ++ titleClusters start stop y style next gs

def title (x y room : Nat) (t : Text) : List Stroke :=
  let room := min (reservedWidth t) room
  if room = 0 then []
  else titleClusters x (x + room) y .title x ((clusters t).filter isDrawable)

/-- The text set into a frame's top edge: trimmed, with a space on each side. -/
def titleText (t : Text) : Text := if t = [] then [] else ' ' :: trim t ++ [' ']

def block (area r : Rect) (t : Text) : List Stroke :=
  let r := r.inter area
  if r.isEmpty then []
  else borders r ++ title (r.x + 1) r.y (r.width - 2) (titleText t)

structure Line where
  text : Text
  style : Style := .plain

/-- Clusters of a line from column `x`, with `room` columns left of the `full` width. One wider
than the full width is left out, and the first that does not fit ends the line. -/
def lineClusters (full y : Nat) (style : Style) : Nat → Nat → List Text → List Stroke
  | _, _, [] => []
  | x, room, g :: gs =>
    let w := columns g
    if full < w then lineClusters full y style x room gs
    else if room < w then []
    else if w = 0 then lineClusters full y style x room gs
    else ⟨x, y, .put g style⟩ :: lineClusters full y style (x + w) (room - w) gs

def line (r : Rect) (y : Nat) (l : Line) : List Stroke :=
  lineClusters r.width y l.style r.x r.width ((clusters l.text).filter isDrawable)

def paragraph (area r : Rect) (ls : List Line) : List Stroke :=
  let r := r.inter area
  if r.isEmpty then []
  else (r.rows.zip ls).flatMap fun (y, l) => line r y l

def dialog (area r : Rect) (t : Text) : List Stroke := clear area r ++ block area r t

end StorageClient.Draw
