import StorageClient.Proofs.Editor.Edits

/-!
Where a step takes a cursor, counted in characters. To the left and right it goes one character
on, except across a line end, where there is none.
-/

namespace StorageClient.Cursor

theorem pointsAt_of_line {b : Buffer} {row col : Nat} {l : Text} (h : b.lines[row]? = some l)
    (hc : col ≤ l.length) : PointsAt ⟨row, col⟩ b.lines (b.offset ⟨row, col⟩) := ⟨l, h, hc, rfl⟩

theorem offset_row_succ {b : Buffer} {row : Nat} {l : Text} (h : b.lines[row]? = some l) :
    b.offset ⟨row + 1, 0⟩ = b.offset ⟨row, l.length⟩ := by
  simp only [Buffer.offset, List.take_add_one, h, Option.toList_some, List.flatten_append,
    List.flatten_singleton, List.length_append, Nat.add_zero]

theorem lineLength_of_line {b : Buffer} {row : Nat} {l : Text} (h : b.lines[row]? = some l) :
    b.lineLength row = l.length := by
  rw [Buffer.lineLength, h, Option.getD_some]

theorem exists_line {b : Buffer} {row : Nat} (h : row < b.count) : ∃ l, b.lines[row]? = some l :=
  ⟨_, List.getElem?_eq_getElem h⟩

theorem rowBelow?_of_lt {b : Buffer} {row : Nat} (h : row < b.count) :
    rowBelow? row b = .ok (if row + 1 < b.count then some (row + 1) else none) := by
  rw [rowBelow?, Word.check_of_le (show row + 1 ≤ b.count from h)]
  rfl

/-- The sum that a step to the right looks at never overflows in a row of the buffer. -/
theorem moved_right_eq {b : Buffer} {c : Cursor} (hr : c.row < b.count) :
    c.moved .right b = .ok (if c.col < b.lineLength c.row then ⟨c.row, c.col + 1⟩
      else if c.row + 1 < b.count then ⟨c.row + 1, 0⟩ else c) := by
  simp only [moved, rowBelow?_of_lt hr, bind, Except.bind, pure, Except.pure]
  split
  · rfl
  · by_cases hlast : c.row + 1 < b.count <;> simp [hlast]

theorem moved_down_eq {b : Buffer} {c : Cursor} (hr : c.row < b.count) :
    c.moved .down b = .ok (if c.row + 1 < b.count then
      ⟨c.row + 1, min c.col (b.lineLength (c.row + 1))⟩ else c) := by
  simp only [moved, rowBelow?_of_lt hr, bind, Except.bind, pure, Except.pure]
  by_cases hlast : c.row + 1 < b.count <;> simp [hlast]

theorem moved_left_spec {b : Buffer} {c : Cursor} (hr : c.row < b.count)
    (hc : c.col ≤ b.lineLength c.row) :
    ∃ c', c.moved .left b = .ok c' ∧
      c'.PointsAt b.lines (if 0 < c.col then b.offset c - 1 else b.offset c) := by
  obtain ⟨l, hl⟩ := exists_line hr
  rw [lineLength_of_line hl] at hc
  simp only [moved]
  split
  · next hpos =>
    refine ⟨_, rfl, l, hl, by dsimp only; omega, ?_⟩
    simp only [Buffer.offset]
    omega
  · next hzero =>
    split
    · next hrow =>
      obtain ⟨row, hrow'⟩ : ∃ row, c.row = row + 1 := ⟨c.row - 1, by omega⟩
      obtain ⟨m, hm⟩ := exists_line (show row < b.count by omega)
      have hoff : b.offset c = b.offset ⟨row, m.length⟩ := by
        rw [← offset_row_succ hm, Buffer.offset, Buffer.offset, hrow']
        dsimp only
        omega
      refine ⟨_, rfl, ?_⟩
      rw [hrow', Nat.add_sub_cancel, lineLength_of_line hm, hoff]
      exact pointsAt_of_line hm (Nat.le_refl _)
    · exact ⟨c, rfl, pointsAt_of_line hl hc⟩

theorem moved_right_spec {b : Buffer} {c : Cursor} (hr : c.row < b.count)
    (hc : c.col ≤ b.lineLength c.row) :
    ∃ c', c.moved .right b = .ok c' ∧
      c'.PointsAt b.lines
        (if c.col < b.lineLength c.row then b.offset c + 1 else b.offset c) := by
  obtain ⟨l, hl⟩ := exists_line hr
  rw [lineLength_of_line hl] at hc
  refine ⟨_, moved_right_eq hr, ?_⟩
  rw [lineLength_of_line hl]
  split
  · next hlt =>
    refine ⟨l, hl, hlt, ?_⟩
    simp only [Buffer.offset]
    omega
  · next hge =>
    have hend : c.col = l.length := by omega
    split
    · next hlt =>
      obtain ⟨m, hm⟩ := exists_line hlt
      have hoff : b.offset c = b.offset ⟨c.row + 1, 0⟩ := by
        rw [offset_row_succ hl, ← hend]
      rw [hoff]
      exact pointsAt_of_line hm (Nat.zero_le _)
    · exact pointsAt_of_line hl hc

theorem pointsAt_min_col {b : Buffer} {row : Nat} (h : row < b.count) (col : Nat) :
    PointsAt ⟨row, min col (b.lineLength row)⟩ b.lines
      (b.offset ⟨row, min col (b.lineLength row)⟩) := by
  obtain ⟨l, hl⟩ := exists_line h
  rw [lineLength_of_line hl]
  exact pointsAt_of_line hl (Nat.min_le_right _ _)

theorem moved_spec {b : Buffer} {c : Cursor} (hr : c.row < b.count)
    (hc : c.col ≤ b.lineLength c.row) (d : Direction) :
    ∃ c', c.moved d b = .ok c' ∧ c'.PointsAt b.lines (b.offset c') := by
  obtain ⟨l, hl⟩ := exists_line hr
  have hl' : c.col ≤ l.length := lineLength_of_line hl ▸ hc
  cases d with
  | left =>
    obtain ⟨c', hm, hp⟩ := moved_left_spec hr hc
    exact ⟨c', hm, Buffer.offset_of_pointsAt hp ▸ hp⟩
  | right =>
    obtain ⟨c', hm, hp⟩ := moved_right_spec hr hc
    exact ⟨c', hm, Buffer.offset_of_pointsAt hp ▸ hp⟩
  | up =>
    simp only [moved]
    split
    · exact ⟨_, rfl, pointsAt_min_col (by omega) _⟩
    · exact ⟨c, rfl, pointsAt_of_line hl hl'⟩
  | down =>
    refine ⟨_, moved_down_eq hr, ?_⟩
    split
    · next hlt => exact pointsAt_min_col hlt _
    · exact pointsAt_of_line hl hl'

end StorageClient.Cursor
