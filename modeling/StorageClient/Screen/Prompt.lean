import StorageClient.Event
import StorageClient.Screen.Draw

/-!
A question answered in one line. A hidden one echoes a star for each character.
-/

namespace StorageClient

structure Prompt where
  hidden : Bool
  value : Text := []
deriving DecidableEq, Repr

namespace Prompt

/-- The prompt after a key, or the answer. Enter answers with the value without the blanks at its
ends, Esc with nothing. -/
def handle (p : Prompt) (k : Key) : Except Text Prompt :=
  match k.code with
  | .enter => .error (Text.trim p.value)
  | .esc => .error []
  | .backspace => .ok { p with value := p.value.dropLast }
  | .char _ =>
    match k.typed? with
    | some c => .ok { p with value := p.value ++ [c] }
    | none => .ok p
  | _ => .ok p

def echo (p : Prompt) : Text := if p.hidden then p.value.map fun _ => '*' else p.value

def frame (area : Rect) : Except Fault Rect :=
  area.centered (min 100 (max 40 (area.width - 6))) 5

def cursor (p : Prompt) (area : Rect) : Except Fault (Nat × Nat) := do
  let r ← frame area
  let offset := min (Text.totalWidth p.echo) (r.width - 4)
  return (Word.satAdd16 (Word.satAdd16 r.x 2) offset, Word.satAdd16 r.y 2)

def draw (p : Prompt) (title : Text) (area : Rect) : Except Fault (List Stroke) := do
  let r ← frame area
  let input : Rect := ⟨Word.satAdd16 r.x 2, Word.satAdd16 r.y 2, r.width - 4, 1⟩
  return Draw.dialog area r title ++
    Draw.paragraph area input [⟨Text.clip p.echo (r.width - 4), .plain⟩]

end Prompt

end StorageClient
