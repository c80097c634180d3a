import StorageClient.Text.Basic

/-!
Hard wrapping: a text is cut at its newlines, and each piece into chunks of a fixed length.
-/

namespace StorageClient.Text

/-- Cuts a text into chunks of `w` characters, of which the last may be shorter. A width of zero
acts as one. -/
def chunks (w : Nat) (t : Text) : List Text :=
  if _ : t = [] then [] else t.take (max w 1) :: chunks w (t.drop (max w 1))
termination_by t.length
decreasing_by
  have := List.length_pos_iff.2 ‹t ≠ []›
  simp only [List.length_drop]
  omega

/-- The lines of one piece: an empty piece is one empty line. -/
def wrapSegment (w : Nat) (s : Text) : List Text := if s = [] then [[]] else chunks w s

def wrap (t : Text) (w : Nat) : List Text := (segments t).flatMap (wrapSegment w)

theorem chunks_nil (w : Nat) : chunks w [] = [] := by simp [chunks]

theorem chunks_of_ne_nil (w : Nat) {t : Text} (h : t ≠ []) :
    chunks w t = t.take (max w 1) :: chunks w (t.drop (max w 1)) := by
  rw [chunks, dif_neg h]

theorem wrapSegment_ne_nil (w : Nat) (s : Text) : wrapSegment w s ≠ [] := by
  unfold wrapSegment
  split
  · simp
  · rename_i h
    rw [chunks_of_ne_nil w h]
    simp

theorem wrap_ne_nil (t : Text) (w : Nat) : wrap t w ≠ [] := by
  unfold wrap
  cases h : segments t with
  | nil => exact absurd h (pieces_ne_nil _ t)
  | cons s ss => simp [wrapSegment_ne_nil]

end StorageClient.Text
