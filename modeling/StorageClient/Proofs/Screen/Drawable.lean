import StorageClient.Proofs.Editor.Invariant
import StorageClient.Program.Run

/-!
Drawing on areas of any size. No widget faults on an area of screen coordinates, also if its window
was laid out for another one; the editor and the reader need no more of their window than that it
was laid out for some terminal.
-/

namespace StorageClient

def Returns {α : Type} (x : Except Fault α) : Prop := ∃ a, x = .ok a

namespace Returns

variable {α β : Type}

theorem pure (a : α) : Returns (Pure.pure a) := ⟨a, rfl⟩

theorem bind {x : Except Fault α} {a : α} {f : α → Except Fault β} (hx : x = .ok a)
    (hf : Returns (f a)) : Returns (x >>= f) := by
  subst hx
  exact hf

theorem bind_of {x : Except Fault α} {f : α → Except Fault β} (hx : Returns x)
    (hf : ∀ a, Returns (f a)) : Returns (x >>= f) := by
  obtain ⟨a, ha⟩ := hx
  exact bind ha (hf a)

end Returns

/-! ### Rectangles -/

namespace Rect

structure OnScreen (r : Rect) : Prop where
  right_le : r.x + r.width ≤ Word.max16
  bottom_le : r.y + r.height ≤ Word.max16

theorem centered_eq {area : Rect} (h : area.OnScreen) (width height : Nat) :
    area.centered width height = .ok ⟨area.x + (area.width - min width area.width) / 2,
      area.y + (area.height - min height area.height) / 2, min width area.width,
      min height area.height⟩ := by
  obtain ⟨hright, hbottom⟩ := h
  unfold centered
  dsimp only
  rw [Word.add16_of_le (by omega), Word.add16_of_le (by omega)]
  rfl

theorem centered_spec {area : Rect} (h : area.OnScreen) (width height : Nat) :
    ∃ r, area.centered width height = .ok r ∧ r.OnScreen := by
  refine ⟨_, centered_eq h width height, ?_⟩
  obtain ⟨hright, hbottom⟩ := h
  constructor <;> dsimp only <;> omega

end Rect

def IsSize (size : Nat × Nat) : Prop := size.1 ≤ Word.max16 ∧ size.2 ≤ Word.max16

theorem IsSize.onScreen {size : Nat × Nat} (h : IsSize size) : (screenOf size).OnScreen :=
  ⟨by simpa [screenOf] using h.1, by simpa [screenOf] using h.2⟩

/-! ### Boxes -/

theorem Prompt.frame_spec {area : Rect} (h : area.OnScreen) :
    ∃ r, frame area = .ok r ∧ r.OnScreen :=
  Rect.centered_spec h _ _

theorem Prompt.cursor_returns (p : Prompt) {area : Rect} (h : area.OnScreen) :
    Returns (p.cursor area) := by
  obtain ⟨r, hr, -⟩ := frame_spec h
  exact .bind hr (.pure _)

theorem Prompt.draw_returns (p : Prompt) (title : Text) {area : Rect} (h : area.OnScreen) :
    Returns (p.draw title area) := by
  obtain ⟨r, hr, -⟩ := frame_spec h
  exact .bind hr (.pure _)

theorem MessageBox.frame_spec {area : Rect} (h : area.OnScreen) :
    ∃ r, frame area = .ok r ∧ r.OnScreen :=
  Rect.centered_spec h _ _

theorem MessageBox.draw_returns (title body : Text) {area : Rect} (h : area.OnScreen) :
    Returns (draw title body area) := by
  obtain ⟨r, hr, hscreen⟩ := frame_spec h
  refine .bind hr ?_
  dsimp only
  split
  · exact .pure _
  · next hheight =>
    have hbottom := hscreen.bottom_le
    exact .bind (Word.add16_of_le hbottom) (.bind (Word.sub16_of_le (by omega)) (.pure _))

/-! ### Windows -/

structure Geometry.LaidOut (g : Geometry) : Prop where
  x_eq : g.window.x = 2
  y_eq : g.window.y = 2
  height_le : g.window.height ≤ Word.max16 - 2

theorem Geometry.laidOut_ofTerminal (w h : Nat) : (ofTerminal w h).LaidOut :=
  ⟨rfl, rfl, Nat.min_le_right ..⟩

structure Roomy (w : Rect) : Prop extends w.OnScreen where
  x_eq : w.x = 2
  y_eq : w.y = 2
  width_ge : 4 ≤ w.width
  height_ge : 4 ≤ w.height

theorem Geometry.LaidOut.roomy {g : Geometry} (h : g.LaidOut) {size : Nat × Nat}
    (hroom : ¬((g.window.inter (screenOf size)).width < 4 ∨
      (g.window.inter (screenOf size)).height < 4)) : Roomy (g.window.inter (screenOf size)) := by
  obtain ⟨hx, hy, -⟩ := h
  simp only [Rect.inter, Rect.right, Rect.bottom, Word.satAdd16, screenOf] at hroom ⊢
  constructor
  · constructor <;> dsimp only <;> omega
  all_goals
    dsimp only
    omega

/-- The scroll is in range of `n` lines, and a screen is as high. -/
structure Viewport.InRange (v : Viewport) (n : Nat) : Prop where
  scroll_le : v.scroll ≤ n - v.height
  height_le : v.height ≤ Word.max16

theorem Viewport.InRange.visibleRows_eq {v : Viewport} {n : Nat} (h : v.InRange n) :
    v.visibleRows n = .ok (min v.scroll n, min (v.scroll + v.height) n) := by
  obtain ⟨hscroll, hheight⟩ := h
  have hsize : Word.max16 < Word.size64 := by decide
  have hcheck : Word.check (v.scroll + v.height) n = .ok () := by
    by_cases hn : v.height ≤ n
    · exact Word.check_of_le (by omega)
    · exact Word.check_of_lt (by omega)
  rw [visibleRows, hcheck]
  rfl

theorem Reader.shown_returns {lines : List Text} {v : Viewport} (h : v.InRange lines.length)
    (width : Nat) : Returns (shown lines v width) := by
  refine .bind h.visibleRows_eq ?_
  dsimp only
  rw [if_neg (by omega)]
  exact .pure _

structure Reader.Sound (r : Reader) : Prop where
  inRange : r.viewport.InRange r.lines.length
  laidOut : r.geometry.LaidOut

theorem Reader.draw_returns {r : Reader} (h : r.Sound) (path : Text) (size : Nat × Nat) :
    Returns (r.draw path (screenOf size)) := by
  unfold draw
  dsimp only
  split
  · exact .pure _
  · next hroom =>
    obtain ⟨⟨hright, hbottom⟩, hx, hy, hwidth, hheight⟩ := h.laidOut.roomy hroom
    refine .bind_of (shown_returns h.inRange _) fun lines => ?_
    exact .bind (Word.add16_of_le (by omega)) <|
      .bind (Word.add16_of_le (by omega)) <|
      .bind (Word.add16_of_le hbottom) <|
      .bind (Word.sub16_of_le (by omega)) <|
      .bind (Word.sub16_of_le (by omega)) <|
      .bind (Word.sub16_of_le (by omega)) <|
      .bind (Word.sub16_of_le (by omega)) (.pure _)

theorem EditorView.cursor_returns {s : Session} (h : s.Sound) (hg : s.geometry.LaidOut)
    (size : Nat × Nat) : Returns (cursor s (screenOf size)) := by
  unfold cursor
  split
  · exact .pure _
  · dsimp only
    split
    · exact .pure _
    · next hroom =>
      obtain ⟨⟨hright, hbottom⟩, hx, hy, hwidth, hheight⟩ := hg.roomy hroom
      split
      · exact .pure _
      · next hscroll =>
        split
        · next l hl =>
          -- The cursor is in view, so its row lies inside the window that was laid out.
          have hrow : s.cursor.row - s.viewport.scroll < s.geometry.visibleHeight := by
            obtain ⟨hfrom, hto, -⟩ := h.shows
            rw [h.height_eq] at hto
            omega
          have hvisible : s.geometry.visibleHeight + 4 ≤ Word.max16 := by
            have hle := hg.height_le
            simp only [Geometry.visibleHeight, Geometry.margin, Word.max16] at hle ⊢
            omega
          have htrunc := Nat.mod_le (s.cursor.row - s.viewport.scroll) (Word.max16 + 1)
          exact .bind (Word.add16_of_le (by omega)) <|
            .bind (Word.add16_of_le hright) <|
            .bind (Word.sub16_of_le (by omega)) <|
            .bind (Word.add16_of_le (by omega)) <|
            .bind (Word.add16_of_le (by unfold Word.trunc16; omega)) (.pure _)
        · exact .pure _

theorem EditorView.draw_returns {s : Session} (h : s.Sound) (hg : s.geometry.LaidOut) (path : Text)
    (size : Nat × Nat) : Returns (draw s path (screenOf size)) := by
  have hrange : s.viewport.InRange s.buffer.lines.length := ⟨h.shows.2.2, h.height_le⟩
  unfold draw
  dsimp only
  split
  · exact .pure _
  · next hroom =>
    obtain ⟨⟨hright, hbottom⟩, hx, hy, hwidth, hheight⟩ := hg.roomy hroom
    refine .bind_of (Reader.shown_returns hrange _) fun lines => ?_
    exact .bind (Word.add16_of_le (by omega)) <|
      .bind (Word.add16_of_le (by omega)) <|
      .bind (Word.add16_of_le hright) <|
      .bind (Word.add16_of_le hbottom) <|
      .bind (Word.sub16_of_le (by omega)) <|
      .bind (Word.sub16_of_le (by omega)) <|
      .bind (Word.add16_of_le (by rw [hx]; decide)) <|
      .bind (Word.sub16_of_le (by omega)) <|
      .bind (Word.sub16_of_le (by omega)) <|
      .bind (Word.sub16_of_le (by omega)) (.pure _)

end StorageClient
