/-!
Texts as lists of characters, control characters, and the cut of a text at a separator.
-/

namespace StorageClient

/-- A text is the list of its characters; lengths and columns count these. -/
abbrev Text := List Char

namespace Text

/-- Control characters are U+0000..001F and U+007F..009F. -/
def isControl (c : Char) : Bool :=
  c.toNat < 0x20 || (0x7F ≤ c.toNat && c.toNat ≤ 0x9F)

def consHead (c : Char) : List Text → List Text
  | [] => [[c]]
  | s :: ss => (c :: s) :: ss

/-- The pieces between separators. There is always at least one. -/
def pieces (sep : Char) : Text → List Text
  | [] => [[]]
  | c :: t => if c = sep then [] :: pieces sep t else consHead c (pieces sep t)

def segments (t : Text) : List Text := pieces '\n' t

theorem pieces_ne_nil (sep : Char) (t : Text) : pieces sep t ≠ [] := by
  cases t with
  | nil => simp [pieces]
  | cons c t =>
    simp only [pieces]
    split
    · simp
    · cases pieces sep t <;> simp [consHead]

def dropEndWhile (p : Char → Bool) (t : Text) : Text := (t.reverse.dropWhile p).reverse

end Text

end StorageClient
