import StorageClient.OsError
import StorageClient.Text.Basic

/-!
What the program asks of a file system, and how names of files are put together.
-/

namespace StorageClient

inductive ReadError where
  | os (e : OsError)
  | notText
deriving DecidableEq, Repr

def ReadError.message : ReadError → Text
  | os e => e.message
  | notText => "stream did not contain valid UTF-8".toList

structure Disk (m : Type → Type) where
  /-- The text of a file. -/
  read : Text → m (Except ReadError Text)
  /-- Whether there is a plain file of a name. -/
  isFile : Text → m Bool
  /-- Makes a directory and those above it that are missing. -/
  makeDirs : Text → m (Except OsError Unit)
  /-- Opens a file to write at its end, and makes it if there is none. -/
  append : Text → m (Except OsError Unit)

namespace FileName

/-- The name of a file in a directory. An absolute name stays, and no slash is doubled. -/
def join (dir name : Text) : Text :=
  if name.head? = some '/' ∨ dir = [] then name
  else if dir.getLast? = some '/' then dir ++ name
  else dir ++ '/' :: name

end FileName

end StorageClient
