import StorageClient.Flow.Requests
import StorageClient.Program.Entry
import StorageClient.Screen.EditorView
import StorageClient.Screen.Menu
import StorageClient.Screen.MessageBox
import StorageClient.Screen.Prompt

/-!
The phases of an interactive run. In each of them one thing is on the screen, and the phase says
what comes after it.
-/

namespace StorageClient

inductive Next where
  | login
  | menu (user : Text)
  | edit (user path : Text)
  | leave
deriving DecidableEq, Repr

inductive Purpose where
  | create
  | replace
deriving DecidableEq, Repr

inductive Phase where
  | username (p : Prompt)
  | password (user : Text) (p : Prompt)
  | notice (n : Notice) (next : Next)
  | menu (user : Text) (m : Menu)
  | form (user : Text) (entry : Entry) (q : Question) (p : Prompt) (next : Text → Form Task)
  | editor (user path : Text) (purpose : Purpose) (s : Session)
  | reader (user path : Text) (r : Reader)

namespace Phase

def login : Phase := username { hidden := false }

def menuOf (user : Text) : Phase := menu user (.start Entry.all.length)

def editorOf (user path : Text) (purpose : Purpose) (content : Text) (size : Nat × Nat) : Phase :=
  editor user path purpose (.start content (.ofTerminal size.1 size.2))

/-- The phase after a notice, none at the end of the run. -/
def ofNext (size : Nat × Nat) : Next → Option Phase
  | .login => some login
  | .menu user => some (menuOf user)
  | .edit user path => some (editorOf user path .replace [] size)
  | .leave => none

def menuTitle (user : Text) : Text := "User: ".toList ++ user ++ " - FileVerse Menu".toList

/-- The strokes of the screen and the place of the terminal cursor if it is shown. -/
def draw (area : Rect) : Phase → Except Fault (List Stroke × Option (Nat × Nat))
  | username p => prompt "Username:".toList p
  | password _ p => prompt "Password:".toList p
  | form _ _ q p _ => prompt q.title p
  | notice n _ => do return (← MessageBox.draw n.title n.body area, none)
  | menu user m => return (m.draw (menuTitle user) (Entry.all.map Entry.label) area, none)
  | editor _ path _ s => do
    let c ← EditorView.cursor s area
    return (← EditorView.draw s path area, c)
  | reader _ path r => do return (← r.draw path area, none)
where
  /-- A question and the cursor behind its answer. -/
  prompt (title : Text) (p : Prompt) : Except Fault (List Stroke × Option (Nat × Nat)) := do
    let c ← p.cursor area
    return (← p.draw title area, some c)

end Phase

end StorageClient
