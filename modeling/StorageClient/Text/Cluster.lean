import StorageClient.Text.Width

/-!
Clusters: the pieces of a text that share a screen cell, a character with the marks that extend it.

Unicode joins more than that. Spacing marks, the joiner of Tifinagh, Hangul vowels and finals, pairs
of regional indicators, skin tones and what follows a joiner begin clusters of their own here, a sign
in front of a number does not take it in, and a line separator can have marks. Such a sequence takes
the columns of all its characters, which are never fewer than it takes on a screen.
-/

namespace StorageClient.Text

/-- Whether `c` and the character after it belong to one cluster: a mark extends any character
that is shown, and a carriage return is not parted from its line feed. -/
def joins (c m : Char) : Bool :=
  (isMark m && !isControl c && !isIgnorable c) || (c == '\r' && m == '\n')

def consCluster (c : Char) : List Text → List Text
  | (m :: g) :: gs => if joins c m then (c :: m :: g) :: gs else [c] :: (m :: g) :: gs
  | gs => [c] :: gs

def clusters (t : Text) : List Text := t.foldr consCluster []

/-- A cluster that holds a control character is never drawn. -/
def isDrawable (g : Text) : Bool := !g.any isControl

def emojiSelector : Char := '\uFE0F'

def isEmoji (c : Char) (t : Text) : Bool :=
  inRanges emojiRanges c.toNat && t.head? == some emojiSelector

/-- The columns that a text is drawn in. An emoji takes two, however narrow the character is that it is
the form of; so these can be more than the widths of the characters come to. -/
def columns : Text → Nat
  | [] => 0
  | c :: t => (if isEmoji c t then 2 else width c) + columns t

/-- Columns that a frame title reserves: a cluster with a control character counts one. -/
def reservedWidth (t : Text) : Nat :=
  (clusters t).foldr (fun g n => (if isDrawable g then columns g else 1) + n) 0

theorem flatten_consCluster (c : Char) (gs : List Text) :
    (consCluster c gs).flatten = c :: gs.flatten := by
  unfold consCluster
  split
  · split <;> simp
  · simp

theorem flatten_clusters (t : Text) : (clusters t).flatten = t := by
  induction t with
  | nil => rfl
  | cons c t ih =>
    change (consCluster c (clusters t)).flatten = c :: t
    rw [flatten_consCluster, ih]

theorem columns_cons (c : Char) (t : Text) :
    columns (c :: t) = (if isEmoji c t then 2 else width c) + columns t := rfl

end StorageClient.Text
