import StorageClient.Editor.Session
import StorageClient.Screen.Reader

/-!
The window of an edit session: the lines in view, the two buttons and a hint.
-/

namespace StorageClient.EditorView

def title (path : Text) : Text := "Editing: ".toList ++ path

def hint : Mode → Text
  | .editing => "ENTER: Save | ESC: Cancel | Ctrl-J: New line | TAB: Buttons".toList
  | .button _ => "LEFT/RIGHT: Switch | ENTER: Select | ESC: Back to editing".toList

def buttonStep : Nat := 10

def button (m : Mode) (b : Button) : Draw.Line :=
  let label := match b with
    | .save => "[Save]".toList
    | .cancel => "[Cancel]".toList
  ⟨label, if m = .button b then .highlight else .plain⟩

/-- The terminal cursor stands on the character being edited. There is none while a button has the
focus or the window has no room. -/
def cursor (s : Session) (area : Rect) : Except Fault (Option (Nat × Nat)) := do
  if s.mode ≠ .editing then return none
  let w := s.geometry.window.inter area
  if w.width < 4 ∨ w.height < 4 then return none
  if s.cursor.row < s.viewport.scroll then return none
  let some l := s.buffer.lines[s.cursor.row]? | return none
  let offset := Word.trunc16 (Text.prefixWidth l s.cursor.col)
  let left ← Word.add16 w.x 2
  let right ← Word.add16 w.x w.width
  let x := min (Word.satAdd16 left offset) (← Word.sub16 right 3)
  let top ← Word.add16 w.y 2
  let y ← Word.add16 top (Word.trunc16 (s.cursor.row - s.viewport.scroll))
  return some (x, y)

/-- Draws the window, if the area has room for one. -/
def draw (s : Session) (path : Text) (area : Rect) : Except Fault (List Stroke) := do
  let w := s.geometry.window.inter area
  if w.width < 4 ∨ w.height < 4 then return []
  let lines ← Reader.shown s.buffer.lines s.viewport s.geometry.maxWidth
  let x ← Word.add16 w.x 2
  let top ← Word.add16 w.y 2
  let right ← Word.add16 w.x w.width
  let bottom ← Word.add16 w.y w.height
  let text := Draw.paragraph area
    ⟨x, top, ← Word.sub16 w.width 2, min s.geometry.visibleHeight (w.height - 2)⟩ lines
  let y ← Word.sub16 bottom 3
  let save := Draw.paragraph area ⟨x, y, buttonStep, 1⟩ [button s.mode .save]
  let next ← Word.add16 x buttonStep
  let cancel := Draw.paragraph area
    ⟨min next (← Word.sub16 right 1), y, w.width - (3 + buttonStep), 1⟩ [button s.mode .cancel]
  let help := Draw.paragraph area ⟨x, ← Word.sub16 bottom 2, ← Word.sub16 w.width 3, 1⟩
    [⟨hint s.mode, .info⟩]
  return Draw.dialog area w (title path) ++ text ++ save ++ cancel ++ help

end StorageClient.EditorView
