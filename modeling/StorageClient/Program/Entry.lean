import StorageClient.Wire.Command
import StorageClient.Wire.Path

/-!
The entries of the menu, and the forms they ask the user to fill in.
-/

namespace StorageClient

inductive Entry where
  | listUsers
  | createUser
  | deleteUser
  | listFiles
  | createFile
  | readFile
  | editFile
  | deleteFile
  | createDirectory
  | deleteDirectory
  | renameFile
  | truncateFile
  | setPermission
  | viewMetadata
  | sessionInfo
  | logout
deriving DecidableEq, Repr

structure Question where
  title : Text
  hidden : Bool := false
  /-- Whether a blank answer gives the form up. -/
  required : Bool := true
deriving DecidableEq, Repr

/-- Questions whose answers lead to further questions or to the end. -/
inductive Form (α : Type) where
  | done (a : α)
  | ask (q : Question) (next : Text → Form α)

namespace Form
variable {α β : Type}

def bind : Form α → (α → Form β) → Form β
  | done a, f => f a
  | ask q next, f => ask q fun t => (next t).bind f

instance : Monad Form where
  pure := done
  bind := bind

def text (title : String) (hidden : Bool) : Form Text := ask ⟨title.toList, hidden, true⟩ done

/-- Asks for a directory; a blank answer means the root. -/
def directory (title : String) : Form Text :=
  ask ⟨title.toList, false, false⟩ fun t => done (Path.normalize t)

def filePath : Form Text := do
  let dir ← directory "Directory path:"
  let name ← text "File name:" false
  return Path.file dir name

end Form

inductive Task where
  | request (c : Command)
  | listFiles (dir : Text)
  | renameFile (oldDir oldName newDir newName : Text)
  | createFile (path : Text)
  | readFile (path : Text)
  | editFile (path : Text)
  | logout
deriving DecidableEq, Repr

namespace Entry

def all : List Entry :=
  [listUsers, createUser, deleteUser, listFiles, createFile, readFile, editFile, deleteFile,
   createDirectory, deleteDirectory, renameFile, truncateFile, setPermission, viewMetadata,
   sessionInfo, logout]

/-- What the menu shows, and the title of a success. -/
def label : Entry → Text
  | listUsers => "List Users".toList
  | createUser => "Create User".toList
  | deleteUser => "Delete User".toList
  | listFiles => "List Files".toList
  | createFile => "Create File".toList
  | readFile => "Read File".toList
  | editFile => "Edit File".toList
  | deleteFile => "Delete File".toList
  | createDirectory => "Create Directory".toList
  | deleteDirectory => "Delete Directory".toList
  | renameFile => "Rename File".toList
  | truncateFile => "Truncate File".toList
  | setPermission => "Set Permission".toList
  | viewMetadata => "View Metadata".toList
  | sessionInfo => "Session Info".toList
  | logout => "Logout".toList

open Form

def form : Entry → Form Task
  | listUsers => return .request .listUsers
  | createUser => do
    let user ← text "New username:" false
    let password ← text "Password:" true
    return .request (.createUser user password)
  | deleteUser => do return .request (.deleteUser (← text "Username to delete:" false))
  | listFiles => do return .listFiles (← directory "Directory path:")
  | createFile => do return .createFile (← filePath)
  | readFile => do return .readFile (← filePath)
  | editFile => do return .editFile (← filePath)
  | deleteFile => do return .request (.deleteFile (← filePath))
  | createDirectory => do return .request (.createDir (← directory "Directory path:"))
  | deleteDirectory => do return .request (.deleteDir (← directory "Directory path:"))
  | renameFile => do
    let oldDir ← directory "Current directory:"
    let oldName ← text "Current file name:" false
    let newDir ← directory "New directory:"
    let newName ← text "New file name:" false
    return .renameFile oldDir oldName newDir newName
  | truncateFile => do
    let path ← filePath
    let size ← text "New size (bytes):" false
    return .request (.truncateFile path size)
  | setPermission => do
    let path ← filePath
    let permissions ← text "Permissions (e.g. 644):" false
    return .request (.setPermissions path permissions)
  | viewMetadata => do return .request (.getMetadata (← filePath))
  | sessionInfo => return .request .getSessionInfo
  | logout => return .logout

end Entry

end StorageClient
