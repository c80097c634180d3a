import StorageClient.Screen.Rect
import StorageClient.Text.Basic

/-!
A grid of screen cells and the strokes that change it. A widget is drawn as a list of strokes, and
each stroke edits one cell, so what a widget changes can be read off its strokes.
-/

namespace StorageClient

inductive Color where
  | reset
  | black
  | green
  | yellow
  | cyan
deriving DecidableEq, Repr

structure Look where
  fg : Color := .reset
  bg : Color := .reset
  bold : Bool := false
deriving DecidableEq, Repr

structure Style where
  fg : Option Color := none
  bg : Option Color := none
  bold : Bool := false
deriving DecidableEq, Repr

def Look.patch (l : Look) (s : Style) : Look :=
  ⟨s.fg.getD l.fg, s.bg.getD l.bg, l.bold || s.bold⟩

namespace Style

def plain : Style := {}

def title : Style := { fg := some .yellow, bold := true }

def highlight : Style := { fg := some .black, bg := some .cyan }

def info : Style := { fg := some .green }

end Style

structure Cell where
  symbol : Text := []
  look : Look := {}
deriving DecidableEq, Repr

/-- What a cell shows. One without a symbol shows a space. -/
def Cell.shown (c : Cell) : Text := if c.symbol = [] then [' '] else c.symbol

inductive Edit where
  /-- Back to no symbol and the default look. -/
  | clear
  /-- Shows a symbol. -/
  | put (symbol : Text) (style : Style)
  /-- Adds characters without a width of their own. -/
  | append (symbol : Text) (style : Style)
deriving DecidableEq, Repr

def Edit.apply : Edit → Cell → Cell
  | .clear, _ => {}
  | .put s st, c => ⟨s, c.look.patch st⟩
  | .append s st, c => ⟨c.symbol ++ s, c.look.patch st⟩

structure Stroke where
  x : Nat
  y : Nat
  edit : Edit
deriving DecidableEq, Repr

structure Grid where
  area : Rect
  cells : Array Cell
  size_cells : cells.size = area.width * area.height

namespace Grid

def blank (area : Rect) : Grid := ⟨area, Array.replicate (area.width * area.height) {}, by simp⟩

def index (g : Grid) (x y : Nat) : Nat := (y - g.area.y) * g.area.width + (x - g.area.x)

/-- The cell `(x, y)`, a blank outside the area. -/
def get (g : Grid) (x y : Nat) : Cell :=
  if g.area.Has x y then g.cells.getD (g.index x y) {} else {}

/-- Makes one stroke. Strokes outside the area are lost. -/
def stroke (g : Grid) (s : Stroke) : Grid :=
  if g.area.Has s.x s.y then
    { g with
      cells := g.cells.modify (g.index s.x s.y) s.edit.apply
      size_cells := by simp [g.size_cells] }
  else g

def draw (g : Grid) (ss : List Stroke) : Grid := ss.foldl stroke g

def row (g : Grid) (y : Nat) : List Cell := g.area.columns.map (g.get · y)

/-- What one row shows, without the spaces at its end. -/
def rowText (g : Grid) (y : Nat) : Text :=
  Text.dropEndWhile (· == ' ') ((g.row y).flatMap Cell.shown)

def rowTexts (g : Grid) : List Text := g.area.rows.map g.rowText

@[simp] theorem area_stroke (g : Grid) (s : Stroke) : (g.stroke s).area = g.area := by
  unfold stroke
  split <;> rfl

theorem index_lt {g : Grid} {x y : Nat} (h : g.area.Has x y) : g.index x y < g.cells.size := by
  rw [g.size_cells]
  simp only [index, Rect.Has] at *
  have : (y - g.area.y + 1) * g.area.width ≤ g.area.height * g.area.width :=
    Nat.mul_le_mul_right _ (by omega)
  rw [Nat.mul_comm g.area.width, Nat.add_mul] at *
  omega

theorem index_inj {g : Grid} {x y u v : Nat} (h : g.area.Has x y) (k : g.area.Has u v)
    (e : g.index x y = g.index u v) : x = u ∧ y = v := by
  simp only [index, Rect.Has] at *
  have hw : 0 < g.area.width := by omega
  have hx : (x - g.area.x) < g.area.width := by omega
  have hu : (u - g.area.x) < g.area.width := by omega
  have hm : x - g.area.x = u - g.area.x := by
    have := congrArg (· % g.area.width) e
    simpa [Nat.mod_eq_of_lt, hx, hu, Nat.add_comm, Nat.mul_comm] using this
  have hd : y - g.area.y = v - g.area.y := by
    have h2 : (y - g.area.y) * g.area.width = (v - g.area.y) * g.area.width := by omega
    exact Nat.eq_of_mul_eq_mul_right hw h2
  omega

theorem get_stroke {g : Grid} {s : Stroke} {x y : Nat} (h : g.area.Has x y) :
    (g.stroke s).get x y = if s.x = x ∧ s.y = y then s.edit.apply (g.get x y) else g.get x y := by
  have hi := index_lt h
  unfold stroke
  split
  · rename_i hs
    simp only [get, h, if_true, index, Array.getD_eq_getD_getElem?, Array.getElem?_modify]
    by_cases e : g.index s.x s.y = g.index x y
    · obtain ⟨rfl, rfl⟩ := index_inj hs h e
      simp only [index] at hi
      simp [Array.getElem?_eq_getElem hi]
    · have hne : ¬(s.x = x ∧ s.y = y) := by
        rintro ⟨rfl, rfl⟩
        exact e rfl
      simp only [index] at e
      simp [hne, e]
  · rename_i hs
    rw [if_neg]
    rintro ⟨rfl, rfl⟩
    exact hs h

end Grid

end StorageClient
