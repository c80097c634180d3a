import StorageClient.Fault

/-!
Rectangles of screen cells. Coordinates are 16 bit words; right and bottom edges stop at the
largest coordinate.
-/

namespace StorageClient

structure Rect where
  x : Nat
  y : Nat
  width : Nat
  height : Nat
deriving DecidableEq, Repr

namespace Rect

/-- A rectangle whose size is cut so that its edges are coordinates. -/
def within (x y width height : Nat) : Rect :=
  ⟨x, y, min width (Word.max16 - x), min height (Word.max16 - y)⟩

def right (r : Rect) : Nat := Word.satAdd16 r.x r.width

def bottom (r : Rect) : Nat := Word.satAdd16 r.y r.height

def isEmpty (r : Rect) : Bool := r.width == 0 || r.height == 0

def inter (r s : Rect) : Rect :=
  let x := max r.x s.x
  let y := max r.y s.y
  ⟨x, y, min r.right s.right - x, min r.bottom s.bottom - y⟩

def Has (r : Rect) (x y : Nat) : Prop :=
  r.x ≤ x ∧ x < r.x + r.width ∧ r.y ≤ y ∧ y < r.y + r.height

instance (r : Rect) (x y : Nat) : Decidable (r.Has x y) := by
  unfold Has
  infer_instance

def columns (r : Rect) : List Nat := (List.range r.width).map (r.x + ·)

def rows (r : Rect) : List Nat := (List.range r.height).map (r.y + ·)

/-- A rectangle of the given size in the middle of an area, shrunk to fit. -/
def centered (area : Rect) (width height : Nat) : Except Fault Rect := do
  let w := min width area.width
  let h := min height area.height
  return ⟨← Word.add16 area.x ((area.width - w) / 2), ← Word.add16 area.y ((area.height - h) / 2),
    w, h⟩

theorem has_of_has_inter {r s : Rect} {x y : Nat} (h : (r.inter s).Has x y) :
    r.Has x y ∧ s.Has x y := by
  simp only [Has, inter, right, bottom, Word.satAdd16] at h ⊢
  omega

end Rect

end StorageClient
