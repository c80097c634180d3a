import StorageClient.Flow.Notice
import StorageClient.Wire.Path

/-!
What the program does with the service on behalf of its user. Each flow sends one command or two
and says what came of it.
-/

namespace StorageClient.Flow
variable {m : Type → Type} [Monad m]

def request (svc : Service m) (title : Text) (c : Command) : m Notice := do
  return .ofOutcome title (← svc c)

/-- Lists a directory; an empty listing is said to be one. -/
def listFiles (svc : Service m) (dir : Text) : m Notice := do
  let title := "Files in ".toList ++ dir
  match ← svc (.listDir dir) with
  | .ok (.success data) =>
    return ⟨title, match data with
      | some (c :: t) => c :: t
      | _ => "No files".toList⟩
  | o => return .ofOutcome title o

def login (svc : Service m) (user password : Text) : m (Except Notice Notice) := do
  match ← svc (.login user password) with
  | .ok (.success _) =>
    return .ok ⟨"Login Successful".toList, "Welcome ".toList ++ user ++ ['!']⟩
  | .ok (.failure why) => return .error ⟨"Authentication failed".toList, why⟩
  | .error e => return .error (.ofTransport e)

def logout (svc : Service m) : m Notice := do
  match ← svc .logout with
  | .ok r => return ⟨"Logout".toList, r.message?.getD "Logged out".toList⟩
  | .error e => return .ofTransport e

def renameFile (svc : Service m) (oldDir oldName newDir newName : Text) : m Notice :=
  request svc "Rename File".toList
    (.renameFile (Path.file oldDir oldName) (Path.file newDir newName))

/-- Fetches a file for viewing. Its newline markers stay. -/
def readForView (svc : Service m) (path : Text) : m (Except Notice Text) := do
  match ← svc (.getFile path) with
  | .ok (.success data) => return .ok (data.getD [])
  | o => return .error (.ofOutcome "Read File".toList o)

structure Loaded where
  content : Text := []
  warning : Option Notice := none
deriving DecidableEq, Repr

/-- The warning before a file that could not be read is edited. -/
def unreadable (reason : Text) : Loaded :=
  { warning := some ⟨"Warning".toList,
      "Could not read file: ".toList ++ reason ++ "\nStarting with empty content.".toList⟩ }

def loadForEdit (svc : Service m) (path : Text) : m Loaded := do
  match ← svc (.getFile path) with
  | .ok (.success data) => return { content := Escape.expand (data.getD []) }
  | .ok (.failure why) => return unreadable why
  | .error e => return unreadable e.report

/-- How much of a refused command is shown. -/
def previewLength : Nat := 100

/-- Replaces a file: it is deleted, then created anew. Only the outcome of the second command
counts. -/
def saveEdited (svc : Service m) (path content : Text) : m Notice := do
  let _ ← svc (.deleteFile path)
  let create : Command := .createFile path content
  match ← svc create with
  | .ok (.success _) =>
    return ⟨"Success".toList,
      "File saved: ".toList ++ path ++ "\n\nContent has been updated successfully!".toList⟩
  | .ok (.failure why) =>
    return ⟨"Error".toList, "Could not save file:\n".toList ++ why ++ "\n\nCommand: ".toList ++
      create.line.take previewLength ++ "...".toList⟩
  | .error e => return .ofTransport e

def createWithContent (svc : Service m) (path content : Text) : m Notice := do
  match ← svc (.createFile path content) with
  | .ok (.success _) => return ⟨"Success".toList, "File created: ".toList ++ path⟩
  | o => return .ofOutcome "Create File".toList o

end StorageClient.Flow
