import StorageClient.Screen.Draw
import StorageClient.Wire.Escape

/-!
A box in the middle of the screen that shows a message until a key is pressed.
-/

namespace StorageClient.MessageBox

def footer : Text := "Press any key to continue...".toList

def frame (area : Rect) : Except Fault Rect :=
  area.centered (min 100 (max 40 (area.width - 6))) (min 20 (max 8 (area.height - 4)))

/-- The lines of a body: newline markers break them like newlines. -/
def lines (body : Text) : List Text := Text.segments (Escape.expand body)

def draw (title body : Text) (area : Rect) : Except Fault (List Stroke) := do
  let r ← frame area
  let shown := (lines body).take (r.height - 4)
  let x := Word.satAdd16 r.x 2
  let text := Draw.paragraph area ⟨x, Word.satAdd16 r.y 2, r.width - 4, r.height - 4⟩
    (shown.map fun l => ⟨Text.clip l (r.width - 4), .plain⟩)
  let box := Draw.dialog area r title ++ text
  if r.height < 3 then return box
  let bottom ← Word.add16 r.y r.height
  let y ← Word.sub16 bottom 2
  return box ++ Draw.paragraph area ⟨x, y, r.width - 4, 1⟩ [⟨footer, .info⟩]

end StorageClient.MessageBox
