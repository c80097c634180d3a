import StorageClient.Text.Blank

/-!
Paths of the service: absolute, with single slashes.
-/

namespace StorageClient.Path

/-- Leaves out every slash that follows a slash; `after` says whether one came just before. -/
def squeeze (after : Bool) : Text → Text
  | [] => []
  | c :: t => if c = '/' ∧ after then squeeze true t else c :: squeeze (c == '/') t

/-- The absolute path that a directory name typed by a user stands for. Blanks at its ends are
dropped, and an empty name is the root. -/
def normalize (t : Text) : Text :=
  match Text.trim t with
  | [] => ['/']
  | '/' :: u => '/' :: squeeze true u
  | u => '/' :: squeeze true u

/-- The path of a file in a directory. The name is taken as it is. -/
def file (dir name : Text) : Text :=
  let d := normalize dir
  if d.getLast? = some '/' then d ++ name else d ++ '/' :: name

end StorageClient.Path
