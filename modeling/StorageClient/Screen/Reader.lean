import StorageClient.Editor.Geometry
import StorageClient.Editor.Viewport
import StorageClient.Event
import StorageClient.Screen.Draw
import StorageClient.Text.Wrap
import StorageClient.Wire.Escape

/-!
The read-only view of a text. Unlike an edit session it wraps the text anew for every window.
-/

namespace StorageClient

structure Reader where
  content : Text
  lines : List Text
  viewport : Viewport
  geometry : Geometry
deriving DecidableEq, Repr

namespace Reader

/-- A view at the top of a text as the service sends it: newline markers are expanded. -/
def start (sent : Text) (g : Geometry) : Reader :=
  let content := Escape.expand sent
  ⟨content, Text.wrap content g.maxWidth, .top g.visibleHeight, g⟩

/-- The view in a new window, at the same row if there are enough. -/
def resize (r : Reader) (g : Geometry) : Reader :=
  let lines := Text.wrap r.content g.maxWidth
  ⟨r.content, lines, (Viewport.top g.visibleHeight).scrollBy r.viewport.scroll lines.length, g⟩

def scrollBy (r : Reader) (d : Int) : Reader :=
  { r with viewport := r.viewport.scrollBy d r.lines.length }

def handle (r : Reader) : Event → Option Reader
  | .resize w h => some (r.resize (.ofTerminal w h))
  | .key k =>
    match k.code with
    | .enter | .esc => none
    | .up => some (r.scrollBy (-1))
    | .down => some (r.scrollBy 1)
    | _ => some r
  | _ => some r

def title (path : Text) : Text := "Reading: ".toList ++ path ++ " (Read-Only)".toList

def hint : Text := "Use UP/DOWN to scroll, ENTER/ESC to close".toList

def shown (lines : List Text) (v : Viewport) (width : Nat) : Except Fault (List Draw.Line) := do
  let (a, b) ← v.visibleRows lines.length
  if b < a ∨ lines.length < b then throw .rangeOutside
  return ((lines.take b).drop a).map fun l => ⟨Text.clip l width, .plain⟩

/-- Draws the window, if the area has room for one: the lines in view, a button and a hint. -/
def draw (r : Reader) (path : Text) (area : Rect) : Except Fault (List Stroke) := do
  let w := r.geometry.window.inter area
  if w.width < 4 ∨ w.height < 4 then return []
  let lines ← shown r.lines r.viewport r.geometry.maxWidth
  let x ← Word.add16 w.x 2
  let top ← Word.add16 w.y 2
  let bottom ← Word.add16 w.y w.height
  let text := Draw.paragraph area ⟨x, top, ← Word.sub16 w.width 2, w.height - 6⟩ lines
  let wide ← Word.sub16 w.width 3
  let close := Draw.paragraph area ⟨x, ← Word.sub16 bottom 3, wide, 1⟩
    [⟨"[Close]".toList, .highlight⟩]
  let help := Draw.paragraph area ⟨x, ← Word.sub16 bottom 2, wide, 1⟩ [⟨hint, .info⟩]
  return Draw.dialog area w (title path) ++ text ++ close ++ help

end Reader

end StorageClient
