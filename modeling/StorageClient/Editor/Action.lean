import StorageClient.Editor.Motion
import StorageClient.Event

/-!
What a key asks an edit session to do, in each of its modes.
-/

namespace StorageClient

inductive Button where
  | save
  | cancel
deriving DecidableEq, Repr

inductive Mode where
  | editing
  | button (b : Button)
deriving DecidableEq, Repr

inductive Action where
  | insert (c : Char)
  | breakLine
  | backspace
  | move (d : Direction)
  | focusButtons
  | focusEditor
  | select (b : Button)
  | confirm
  | cancel
  | resize (width height : Nat)
deriving DecidableEq, Repr

namespace Action

def ofEditingKey (k : Key) : Option Action :=
  if k.mods.ctrl then
    match k.code with
    | .char 'c' => some .cancel
    | .char 'j' => some .breakLine
    | .char 'h' => some .backspace
    | code => ofCode code
  else (k.typed?.map .insert).or (ofCode k.code)
where
  /-- Keys that act alike with any modifiers. -/
  ofCode : KeyCode → Option Action
    | .backspace => some .backspace
    | .left => some (.move .left)
    | .right => some (.move .right)
    | .up => some (.move .up)
    | .down => some (.move .down)
    | .tab => some .focusButtons
    | .enter => some .confirm
    | .esc => some .cancel
    | _ => none

def ofButtonKey (k : Key) : Option Action :=
  match k.code with
  | .char 'c' => if k.mods.ctrl then some .cancel else none
  | .left => some (.select .save)
  | .right => some (.select .cancel)
  | .enter => some .confirm
  | .tab | .esc => some .focusEditor
  | _ => none

def ofKey : Mode → Key → Option Action
  | .editing, k => ofEditingKey k
  | .button _, k => ofButtonKey k

/-- Events in the given mode; a key that comes up asks for nothing. -/
def ofEvent (m : Mode) : Event → Option Action
  | .resize w h => some (.resize w h)
  | .key k => if k.kind = .release then none else ofKey m k
  | _ => none

end Action

end StorageClient
