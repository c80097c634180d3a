import StorageClient.Proofs.Editor.Steps
import StorageClient.Proofs.Screen.Drawable
import StorageClient.Proofs.Screen.LineCells

/-!
The windows of the editor and of the reader as lists of strokes, and the characters that stand in
their text areas.
-/

namespace StorageClient
open Text

/-! ### Windows inside an area -/

structure Rect.Contains (area r : Rect) : Prop where
  left_le : area.x ≤ r.x
  right_le : r.x + r.width ≤ area.x + area.width
  top_le : area.y ≤ r.y
  bottom_le : r.y + r.height ≤ area.y + area.height

theorem Rect.contains_of_inter_eq {area r w : Rect} (hw : r.inter area = w) (hwidth : 4 ≤ w.width)
    (hheight : 4 ≤ w.height) : area.Contains w := by
  subst hw
  simp only [inter, right, bottom, Word.satAdd16] at hwidth hheight ⊢
  constructor <;> dsimp only <;> omega

theorem Rect.Contains.has {area r : Rect} (h : area.Contains r) {x y : Nat} (hxy : r.Has x y) :
    area.Has x y := by
  obtain ⟨hleft, hright, htop, hbottom⟩ := h
  simp only [Has] at *
  omega

theorem Rect.Contains.inter_eq {area r : Rect} (h : area.Contains r) (hr : r.OnScreen) :
    r.inter area = r := by
  obtain ⟨hleft, hright, htop, hbottom⟩ := h
  obtain ⟨hrright, hrbottom⟩ := hr
  obtain ⟨x, y, width, height⟩ := r
  simp only [inter, right, bottom, Word.satAdd16, Rect.mk.injEq] at *
  omega

structure Geometry.FitsIn (g : Geometry) (area : Rect) : Prop where
  onScreen : g.window.OnScreen
  contains : area.Contains g.window
  width_ge : 6 ≤ g.window.width
  height_ge : 6 ≤ g.window.height

namespace Geometry.FitsIn

variable {g : Geometry} {area : Rect}

theorem inter_eq (h : g.FitsIn area) : g.window.inter area = g.window :=
  h.contains.inter_eq h.onScreen

theorem maxWidth_le (h : g.FitsIn area) : g.maxWidth + 5 ≤ g.window.width := by
  have := h.width_ge
  simp only [maxWidth, margin]
  omega

theorem visibleHeight_le (h : g.FitsIn area) : g.visibleHeight + 5 ≤ g.window.height := by
  have := h.height_ge
  simp only [visibleHeight, margin]
  omega

theorem text_contains (h : g.FitsIn area) {n : Nat} (hn : n + 2 ≤ g.window.height) :
    area.Contains ⟨g.window.x + 2, g.window.y + 2, g.window.width - 2, n⟩ := by
  obtain ⟨-, ⟨hleft, hright, htop, hbottom⟩, hwidth, -⟩ := h
  constructor <;> dsimp only <;> omega

theorem text_onScreen (h : g.FitsIn area) {n : Nat} (hn : n + 2 ≤ g.window.height) :
    Rect.OnScreen ⟨g.window.x + 2, g.window.y + 2, g.window.width - 2, n⟩ := by
  obtain ⟨⟨hright, hbottom⟩, -, hwidth, -⟩ := h
  constructor <;> dsimp only <;> omega

end Geometry.FitsIn

/-! ### Lines of a window -/

section Paragraph
variable {area p : Rect} {grid : Grid} {front rest : List Stroke} {lines : List Draw.Line} {i : Nat}
  {t u : Text} {style : Style}

theorem editsAt_of_below {x y : Nat} {ss : List Stroke} (h : ∀ s ∈ ss, y < s.y) :
    editsAt x y ss = [] :=
  editsAt_eq_nil fun s hs hxy => (Nat.ne_of_lt (h s hs)) hxy.2.symm

/-- A character stands in its column of its row, together with its marks, if nothing is drawn over
the row. -/
theorem Grid.symbol_draw_paragraph (hgrid : grid.area = area) (hp : area.Contains p)
    (hscreen : p.OnScreen) (hrest : ∀ s ∈ rest, p.y + i < s.y) (hi : i < p.height) {c : Char}
    (hl : lines[i]? = some ⟨t ++ c :: u, style⟩) (hvisible : ∀ d ∈ t ++ c :: u, isControl d = false)
    (hc : 0 < width c) (hfits : columns t + columns (c :: u.takeWhile isMark) ≤ p.width) :
    ((grid.draw (front ++ Draw.paragraph area p lines ++ rest)).get
      (p.x + columns t) (p.y + i)).symbol = c :: u.takeWhile isMark := by
  have hpos := columns_cons_pos hc (u.takeWhile isMark)
  have hhas : p.Has (p.x + columns t) (p.y + i) := by
    simp only [Rect.Has]
    omega
  have hedits : editsAt (p.x + columns t) (p.y + i)
      (front ++ Draw.paragraph area p lines ++ rest) =
        editsAt (p.x + columns t) (p.y + i) front ++ [.put (c :: u.takeWhile isMark) style] := by
    rw [editsAt_append, editsAt_append, editsAt_of_below hrest, List.append_nil,
      Draw.editsAt_paragraph (hp.inter_eq hscreen) hl (by omega) hi,
      Draw.editsAt_line hvisible hc hfits]
  exact Grid.symbol_draw_of_editsAt (hgrid ▸ hp.has hhas) hedits

theorem Grid.get_draw_paragraph_end (hp : area.Contains p) (hscreen : p.OnScreen)
    (hrest : ∀ s ∈ rest, p.y + i < s.y) (hwidth : 0 < p.width) (hi : i < p.height) {x : Nat}
    (hl : lines[i]? = some ⟨t, style⟩) (hvisible : ∀ d ∈ t, isControl d = false)
    (hx : p.x + columns t ≤ x) (hempty : grid.get x (p.y + i) = {})
    (hfront : ∀ e ∈ editsAt x (p.y + i) front, e = .clear) :
    (grid.draw (front ++ Draw.paragraph area p lines ++ rest)).get x (p.y + i) = {} := by
  refine Grid.get_draw_of_clear hempty ?_
  rwa [editsAt_append, editsAt_append, editsAt_of_below hrest, List.append_nil,
    Draw.editsAt_paragraph (hp.inter_eq hscreen) hl hwidth hi,
    Draw.editsAt_line_eq_nil hvisible hx, List.append_nil]

end Paragraph

theorem Reader.shown_spec {lines : List Text} {v : Viewport} (h : v.InRange lines.length)
    (width : Nat) : ∃ ls, shown lines v width = .ok ls ∧ ∀ row l, lines[row]? = some l →
      v.scroll ≤ row → row < v.scroll + v.height →
        ls[row - v.scroll]? = some ⟨clip l width, .plain⟩ := by
  refine ⟨((lines.take (min (v.scroll + v.height) lines.length)).drop
    (min v.scroll lines.length)).map fun l => ⟨clip l width, .plain⟩, ?_, ?_⟩
  · rw [shown, h.visibleRows_eq]
    dsimp only [bind, Except.bind]
    rw [if_neg (by omega)]
    rfl
  · intro row l hl hfrom hto
    have hlt := (List.getElem?_eq_some_iff.mp hl).1
    rw [List.getElem?_map, List.getElem?_drop, List.getElem?_take_of_lt (by omega)]
    have hrow : min v.scroll lines.length + (row - v.scroll) = row := by omega
    rw [hrow, hl]
    rfl

/-! ### What is drawn -/

def Reader.footer (area w : Rect) : List Stroke :=
  Draw.paragraph area ⟨w.x + 2, w.y + w.height - 3, w.width - 3, 1⟩
      [⟨"[Close]".toList, .highlight⟩] ++
    Draw.paragraph area ⟨w.x + 2, w.y + w.height - 2, w.width - 3, 1⟩ [⟨hint, .info⟩]

def Reader.strokes (r : Reader) (path : Text) (area : Rect) (lines : List Draw.Line) : List Stroke :=
  let w := r.geometry.window.inter area
  Draw.dialog area w (title path) ++
    Draw.paragraph area ⟨w.x + 2, w.y + 2, w.width - 2, w.height - 6⟩ lines ++ footer area w

theorem Reader.footer_below {area w : Rect} {s : Stroke} (h : s ∈ footer area w) :
    w.y + w.height - 3 ≤ s.y := by
  rcases List.mem_append.mp h with h | h
  · exact Draw.le_y_of_mem_paragraph h
  · exact Nat.le_trans (by dsimp only; omega) (Draw.le_y_of_mem_paragraph h)

theorem Reader.draw_eq {r : Reader} {area : Rect}
    (hwidth : 4 ≤ (r.geometry.window.inter area).width)
    (hheight : 4 ≤ (r.geometry.window.inter area).height) (path : Text) :
    r.draw path area =
      (shown r.lines r.viewport r.geometry.maxWidth).map (r.strokes path area) := by
  have hright := Rect.inter_right_le (Nat.lt_of_lt_of_le (Nat.succ_pos 3) hwidth)
  have hbottom := Rect.inter_bottom_le (Nat.lt_of_lt_of_le (Nat.succ_pos 3) hheight)
  unfold draw strokes footer
  dsimp only
  generalize r.geometry.window.inter area = w at *
  rw [if_neg (by omega)]
  cases shown r.lines r.viewport r.geometry.maxWidth with
  | error fault => rfl
  | ok lines =>
    dsimp only [bind, Except.bind]
    rw [Word.add16_of_le (by omega), Word.add16_of_le (by omega), Word.add16_of_le hbottom,
      Word.sub16_of_le (by omega), Word.sub16_of_le (by omega)]
    dsimp only
    rw [Word.sub16_of_le (by omega)]
    dsimp only
    rw [Word.sub16_of_le (by omega)]
    simp [Except.map, pure, Except.pure]

def EditorView.saveArea (w : Rect) : Rect := ⟨w.x + 2, w.y + w.height - 3, buttonStep, 1⟩

def EditorView.footer (m : Mode) (area w : Rect) : List Stroke :=
  Draw.paragraph area (saveArea w) [button m .save] ++
    Draw.paragraph area ⟨min (w.x + 2 + buttonStep) (w.x + w.width - 1), w.y + w.height - 3,
      w.width - (3 + buttonStep), 1⟩ [button m .cancel] ++
    Draw.paragraph area ⟨w.x + 2, w.y + w.height - 2, w.width - 3, 1⟩ [⟨hint m, .info⟩]

def EditorView.strokes (s : Session) (path : Text) (area : Rect) (lines : List Draw.Line) :
    List Stroke :=
  let w := s.geometry.window.inter area
  Draw.dialog area w (title path) ++
    Draw.paragraph area
      ⟨w.x + 2, w.y + 2, w.width - 2, min s.geometry.visibleHeight (w.height - 2)⟩ lines ++
    footer s.mode area w

theorem EditorView.footer_below {m : Mode} {area w : Rect} {s : Stroke} (h : s ∈ footer m area w) :
    w.y + w.height - 3 ≤ s.y := by
  rcases List.mem_append.mp h with h | h
  · rcases List.mem_append.mp h with h | h
    · exact Draw.le_y_of_mem_paragraph h
    · exact Draw.le_y_of_mem_paragraph h
  · exact Nat.le_trans (by dsimp only; omega) (Draw.le_y_of_mem_paragraph h)

/-- The column of the second button has to be a coordinate, whether the button has room or not. -/
theorem EditorView.draw_eq {s : Session} {area : Rect}
    (hwidth : 4 ≤ (s.geometry.window.inter area).width)
    (hheight : 4 ≤ (s.geometry.window.inter area).height) (path : Text) :
    draw s path area = do
      let lines ← Reader.shown s.buffer.lines s.viewport s.geometry.maxWidth
      let _ ← Word.add16 ((s.geometry.window.inter area).x + 2) buttonStep
      return strokes s path area lines := by
  have hright := Rect.inter_right_le (Nat.lt_of_lt_of_le (Nat.succ_pos 3) hwidth)
  have hbottom := Rect.inter_bottom_le (Nat.lt_of_lt_of_le (Nat.succ_pos 3) hheight)
  unfold draw strokes footer saveArea
  dsimp only
  generalize s.geometry.window.inter area = w at *
  rw [if_neg (by omega)]
  cases Reader.shown s.buffer.lines s.viewport s.geometry.maxWidth with
  | error fault => rfl
  | ok lines =>
    have hrow : Word.sub16 (w.y + w.height) 3 = .ok _ := Word.sub16_of_le (by omega)
    have hedge : Word.sub16 (w.x + w.width) 1 = .ok _ := Word.sub16_of_le (by omega)
    have hhint : Word.sub16 (w.y + w.height) 2 = .ok _ := Word.sub16_of_le (by omega)
    dsimp only [bind, Except.bind]
    rw [Word.add16_of_le (by omega), Word.add16_of_le (by omega), Word.add16_of_le hright,
      Word.add16_of_le hbottom, Word.sub16_of_le (by omega), Word.sub16_of_le (by omega)]
    dsimp only
    rw [hrow]
    by_cases hstep : w.x + 2 + buttonStep ≤ Word.max16
    · rw [Word.add16_of_le hstep, hedge, hhint]
      simp [pure, Except.pure]
    · rw [Word.add16, if_neg hstep]

theorem EditorView.eq_strokes_of_draw {s : Session} {path : Text} {area : Rect} {ss : List Stroke}
    (h : draw s path area = .ok ss) :
    ((s.geometry.window.inter area).width < 4 ∨ (s.geometry.window.inter area).height < 4) ∧
        ss = [] ∨
      4 ≤ (s.geometry.window.inter area).width ∧ 4 ≤ (s.geometry.window.inter area).height ∧
        ∃ lines, Reader.shown s.buffer.lines s.viewport s.geometry.maxWidth = .ok lines ∧
          ss = strokes s path area lines := by
  by_cases hroom : (s.geometry.window.inter area).width < 4 ∨
      (s.geometry.window.inter area).height < 4
  · rw [draw, if_pos hroom] at h
    cases h
    exact .inl ⟨hroom, rfl⟩
  · rw [draw_eq (by omega) (by omega)] at h
    obtain ⟨lines, hlines, h⟩ := eq_ok_of_bind h
    obtain ⟨-, -, h⟩ := eq_ok_of_bind h
    cases h
    exact .inr ⟨by omega, by omega, lines, hlines, rfl⟩

theorem EditorView.draw_returns_of_step {s : Session} (h : s.Sound) {area : Rect}
    (hstep : (s.geometry.window.inter area).x + 2 + buttonStep ≤ Word.max16) (path : Text) :
    Returns (draw s path area) := by
  by_cases hroom : (s.geometry.window.inter area).width < 4 ∨
      (s.geometry.window.inter area).height < 4
  · rw [draw, if_pos hroom]
    exact .pure _
  · have hshown := Reader.shown_returns ⟨h.shows.2.2, h.height_le⟩ s.geometry.maxWidth
    rw [draw_eq (by omega) (by omega)]
    exact .bind_of hshown fun lines => .bind (Word.add16_of_le hstep) (.pure _)

end StorageClient
