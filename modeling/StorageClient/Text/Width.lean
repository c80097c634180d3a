import StorageClient.Text.Ranges

/-!
Display widths: how many terminal columns a character takes, and what of a line fits in so many.
-/

namespace StorageClient.Text

def isMark (c : Char) : Bool := inRanges markRanges c.toNat

/-- Ignorable characters are not shown and extend nothing. -/
def isIgnorable (c : Char) : Bool := inRanges ignorableRanges c.toNat

/-- Control characters count nothing, and one sign of Khmer takes three columns. -/
def width (c : Char) : Nat :=
  if isControl c || isMark c || isIgnorable c || inRanges columnlessRanges c.toNat then 0
  else if inRanges wideRanges c.toNat then 2
  else if c == '\u17D8' then 3
  else 1

def totalWidth : Text → Nat
  | [] => 0
  | c :: t => width c + totalWidth t

def prefixWidth (t : Text) (k : Nat) : Nat := totalWidth (t.take k)

/-- The longest prefix of at most `n` columns. -/
def fit (n : Nat) : Text → Text
  | [] => []
  | c :: t => if width c ≤ n then c :: fit (n - width c) t else []

/-- What can be shown of a line in `n` columns: control characters are left out first. -/
def clip (t : Text) (n : Nat) : Text := fit n (t.filter fun c => !isControl c)

theorem totalWidth_cons (c : Char) (t : Text) : totalWidth (c :: t) = width c + totalWidth t := rfl

theorem totalWidth_fit_le (n : Nat) (t : Text) : totalWidth (fit n t) ≤ n := by
  induction t generalizing n with
  | nil => simp [fit, totalWidth]
  | cons c t ih =>
    simp only [fit]
    split
    · rw [totalWidth_cons]
      have := ih (n - width c)
      omega
    · simp [totalWidth]

end StorageClient.Text
