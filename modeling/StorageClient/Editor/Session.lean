import StorageClient.Editor.Action
import StorageClient.Editor.Geometry
import StorageClient.Editor.Viewport

/-!
An edit session: a buffer, a cursor that stays in view, and the two buttons that end it.
-/

namespace StorageClient

inductive Exit where
  | saved
  | cancelled
deriving DecidableEq, Repr

structure Session where
  buffer : Buffer
  cursor : Cursor
  viewport : Viewport
  geometry : Geometry
  mode : Mode
deriving DecidableEq, Repr

namespace Session

def start (content : Text) (g : Geometry) : Session :=
  { buffer := .ofText content g.maxWidth
    cursor := {}
    viewport := .top g.visibleHeight
    geometry := g
    mode := .editing }

/-- Scrolls to the cursor, which has to lie in the buffer. -/
def follow (s : Session) : Except Fault Session :=
  if s.cursor.isWithin s.buffer then do
    let v ← s.viewport.follow s.cursor.row s.buffer.count
    return { s with viewport := v }
  else throw .cursorOutside

def edited (s : Session) (r : Buffer × Cursor) : Except Fault Session :=
  { s with buffer := r.1, cursor := r.2 }.follow

/-- Removes the character before the cursor, or joins the line with the one above. -/
def backspace (s : Session) : Except Fault Session :=
  if 0 < s.cursor.col then do s.edited (← s.buffer.delete s.cursor.row s.cursor.col)
  else if 0 < s.cursor.row then do s.edited (← s.buffer.merge s.cursor.row)
  else s.follow

def move (s : Session) (d : Direction) : Except Fault Session := do
  let c ← s.cursor.moved d s.buffer
  { s with cursor := c }.follow

/-- A new window. The lines stay as they are; later insertions split at the new width. -/
def resize (s : Session) (g : Geometry) : Except Fault Session := do
  let v ← s.viewport.resize g.visibleHeight s.cursor.row s.buffer.count
  return { s with geometry := g, buffer := s.buffer.setMaxWidth g.maxWidth, viewport := v }

/-- The session after an action, and its end if the action is one. What the mode has no use for
is passed over. -/
def apply (s : Session) : Action → Except Fault (Session × Option Exit)
  | .resize w h => do return (← s.resize (.ofTerminal w h), none)
  | .cancel => return (s, some .cancelled)
  | .confirm => return (s, some (if s.mode = .button .cancel then .cancelled else .saved))
  | .insert c => onText do s.edited (← s.buffer.insert s.cursor c)
  | .breakLine => onText do s.edited (← s.buffer.split s.cursor.row s.cursor.col)
  | .backspace => onText s.backspace
  | .move d => onText (s.move d)
  | .focusButtons => onText (.ok { s with mode := .button .save })
  | .focusEditor => onButtons { s with mode := .editing }
  | .select b => onButtons { s with mode := .button b }
where
  /-- A step that only the text takes. -/
  onText (next : Except Fault Session) : Except Fault (Session × Option Exit) :=
    match s.mode with
    | .editing => do return (← next, none)
    | .button _ => return (s, none)
  /-- A step that only the buttons take. -/
  onButtons (next : Session) : Except Fault (Session × Option Exit) :=
    match s.mode with
    | .editing => return (s, none)
    | .button _ => return (next, none)

def handle (s : Session) (e : Event) : Except Fault (Session × Option Exit) :=
  match Action.ofEvent s.mode e with
  | some a => s.apply a
  | none => return (s, none)

/-- The text that a session leaves behind: all characters if it was saved. -/
def finish (s : Session) : Exit → Option Text
  | .saved => some s.buffer.flatten
  | .cancelled => none

end Session

end StorageClient
