import StorageClient.Text.Basic

/-!
The two spellings of content on the wire: a quoted argument going out, and newline markers coming
in. They are not inverse to each other.
-/

namespace StorageClient.Escape

def replace (c : Char) (new : Text) (t : Text) : Text :=
  t.flatMap fun d => if d = c then new else [d]

/-- Makes a text fit between double quotes. Backslashes are doubled first, so that those put
before quotes stay single. -/
def encode (t : Text) : Text := replace '"' ['\\', '"'] (replace '\\' ['\\', '\\'] t)

/-- Turns each marker, a backslash followed by the letter n, into a newline. Every other
backslash stays. -/
def expand : Text → Text
  | '\\' :: 'n' :: t => '\n' :: expand t
  | c :: t => c :: expand t
  | [] => []

theorem replace_append (c : Char) (new t u : Text) :
    replace c new (t ++ u) = replace c new t ++ replace c new u := by simp [replace]

end StorageClient.Escape
