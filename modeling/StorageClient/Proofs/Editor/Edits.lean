import StorageClient.Editor.Motion
import StorageClient.Proofs.Text.Lines

/-!
What the four edits of a buffer do to its characters. Each replaces one or two neighbouring lines;
`Replaced` says by which characters and where among these the cursor comes to stand, whatever the
lines they are split into.
-/

namespace StorageClient

/-- The cursor is a place in the lines, with `p` characters before it. -/
def Cursor.PointsAt (c : Cursor) (ls : List Text) (p : Nat) : Prop :=
  ∃ l, ls[c.row]? = some l ∧ c.col ≤ l.length ∧ (ls.take c.row).flatten.length + c.col = p

namespace Cursor

theorem pointsAt_head (l : Text) (ls : List Text) {k : Nat} (h : k ≤ l.length) :
    PointsAt ⟨0, k⟩ (l :: ls) k := ⟨l, rfl, h, by simp⟩

theorem PointsAt.cons {c : Cursor} {ls : List Text} {p : Nat} (h : c.PointsAt ls p) (l : Text) :
    PointsAt ⟨c.row + 1, c.col⟩ (l :: ls) (l.length + p) := by
  obtain ⟨m, hm, hc, hp⟩ := h
  refine ⟨m, hm, hc, ?_⟩
  simp only [List.take_succ_cons, List.flatten_cons, List.length_append]
  omega

theorem PointsAt.between {c : Cursor} {ls : List Text} {p : Nat} (h : c.PointsAt ls p)
    (above below : List Text) :
    PointsAt ⟨above.length + c.row, c.col⟩ (above ++ ls ++ below) (above.flatten.length + p) := by
  obtain ⟨l, hl, hc, hp⟩ := h
  have hr : c.row < ls.length := (List.getElem?_eq_some_iff.mp hl).1
  refine ⟨l, ?_, hc, ?_⟩
  · rw [List.append_assoc, List.getElem?_append_right (by simp), Nat.add_sub_cancel_left,
      List.getElem?_append_left hr, hl]
  · have ht : ((above ++ ls) ++ below).take (above.length + c.row) = above ++ ls.take c.row := by
      rw [List.append_assoc, List.take_length_add_append, List.take_append_of_le_length (Nat.le_of_lt hr)]
    simp only [ht, List.flatten_append, List.length_append]
    omega

theorem PointsAt.row_lt {c : Cursor} {ls : List Text} {p : Nat} (h : c.PointsAt ls p) :
    c.row < ls.length := by
  obtain ⟨l, hl, -, -⟩ := h
  exact (List.getElem?_eq_some_iff.mp hl).1

theorem isWithin_iff {c : Cursor} {b : Buffer} :
    c.isWithin b = true ↔ c.row < b.count ∧ c.col ≤ b.lineLength c.row := by
  simp [isWithin]

theorem isWithin_of_pointsAt {c : Cursor} {b : Buffer} {p : Nat} (h : c.PointsAt b.lines p) :
    c.isWithin b = true := by
  obtain ⟨l, hl, hc, -⟩ := h
  have hr : c.row < b.lines.length := (List.getElem?_eq_some_iff.mp hl).1
  rw [isWithin_iff, Buffer.lineLength, hl, Option.getD_some]
  exact ⟨hr, hc⟩

end Cursor

namespace Buffer

/-- The number of characters before a cursor: those of the rows above and those left of it. -/
def offset (b : Buffer) (c : Cursor) : Nat := (b.lines.take c.row).flatten.length + c.col

theorem offset_of_pointsAt {b : Buffer} {c : Cursor} {p : Nat} (h : c.PointsAt b.lines p) :
    b.offset c = p := by
  obtain ⟨l, -, -, hp⟩ := h
  exact hp

/-- The outcome `r` of an edit: `n` lines of `b` from `row` on have given way to lines that hold
`new`, and the cursor stands behind the first `k` of these characters. -/
def Replaced (b : Buffer) (row n : Nat) (new : Text) (k : Nat) (r : Buffer × Cursor) : Prop :=
  ∃ (ls : List Text) (c : Cursor),
    r = (b.splice row n ls, ⟨row + c.row, c.col⟩) ∧ ls.flatten = new ∧ c.PointsAt ls k

theorem take_splice {b : Buffer} {row k : Nat} (hrow : row ≤ b.lines.length) (n : Nat)
    {new : List Text} (hk : k ≤ new.length) :
    (b.splice row n new).lines.take (row + k) = b.lines.take row ++ new.take k := by
  have hlen : (b.lines.take row).length = row := List.length_take_of_le hrow
  simp only [splice, List.append_assoc]
  rw [List.take_append, hlen, Nat.add_sub_cancel_left, List.take_of_length_le (by omega),
    List.take_append_of_le_length hk]

theorem drop_splice {b : Buffer} {row : Nat} (hrow : row ≤ b.lines.length) (n : Nat)
    (new : List Text) :
    (b.splice row n new).lines.drop (row + new.length) = b.lines.drop (row + n) := by
  have hlen : (b.lines.take row).length = row := List.length_take_of_le hrow
  simp only [splice]
  exact List.drop_left' (by simp [hlen])

theorem Replaced.maxWidth_eq {b : Buffer} {row n k : Nat} {new : Text} {r : Buffer × Cursor}
    (h : b.Replaced row n new k r) : r.1.maxWidth = b.maxWidth := by
  obtain ⟨ls, c, rfl, -, -⟩ := h
  rfl

theorem Replaced.flatten_eq {b : Buffer} {row n k : Nat} {new : Text} {r : Buffer × Cursor}
    (h : b.Replaced row n new k r) :
    r.1.flatten = (b.lines.take row).flatten ++ new ++ (b.lines.drop (row + n)).flatten := by
  obtain ⟨ls, c, rfl, hf, -⟩ := h
  simp [flatten, splice, hf]

theorem Replaced.pointsAt {b : Buffer} {row n k : Nat} {new : Text} {r : Buffer × Cursor}
    (h : b.Replaced row n new k r) (hr : row ≤ b.count) :
    r.2.PointsAt r.1.lines ((b.lines.take row).flatten.length + k) := by
  obtain ⟨ls, c, rfl, -, hc⟩ := h
  have hp := hc.between (b.lines.take row) (b.lines.drop (row + n))
  rwa [List.length_take_of_le hr] at hp

theorem Replaced.count_le {b : Buffer} {row n k : Nat} {new : Text} {r : Buffer × Cursor}
    (h : b.Replaced row n new k r) (hn : n ≤ 2) : b.count ≤ r.1.count + 1 := by
  obtain ⟨ls, c, rfl, -, hc⟩ := h
  have hl := hc.row_lt
  simp only [count, splice, List.length_append, List.length_take, List.length_drop]
  omega

theorem Replaced.not_mem {b : Buffer} {row n k : Nat} {new : Text} {r : Buffer × Cursor}
    (h : b.Replaced row n new k r) (hb : ∀ l ∈ b.lines, '\n' ∉ l) (hn : '\n' ∉ new) :
    ∀ l ∈ r.1.lines, '\n' ∉ l := by
  obtain ⟨ls, c, rfl, rfl, -⟩ := h
  intro l hl
  simp only [splice, List.mem_append] at hl
  rcases hl with (hl | hl) | hl
  · exact hb l (List.mem_of_mem_take hl)
  · exact fun hm => hn (List.mem_flatten.mpr ⟨l, hl, hm⟩)
  · exact hb l (List.mem_of_mem_drop hl)

theorem lineAt_of_getElem? {b : Buffer} {row : Nat} {l : Text} (h : b.lines[row]? = some l) :
    b.lineAt row = .ok l := by
  rw [lineAt, h]

theorem length_insert (l : Text) (col : Nat) (ch : Char) :
    (l.take col ++ ch :: l.drop col).length = l.length + 1 := by
  simp only [List.length_append, List.length_take, List.length_cons, List.length_drop]
  omega

theorem split_of_line {b : Buffer} {row : Nat} {l : Text} (h : b.lines[row]? = some l) (col : Nat) :
    b.split row col = .ok (b.splice row 1 [l.take col, l.drop col], ⟨row + 1, 0⟩) := by
  rw [split, lineAt_of_getElem? h]
  rfl

theorem insert_of_lt {b : Buffer} {row col : Nat} {l : Text} (h : b.lines[row]? = some l)
    (hc : col ≤ l.length) (hlt : l.length + 1 < b.maxWidth) (ch : Char) :
    b.insert ⟨row, col⟩ ch =
      .ok (b.splice row 1 [l.take col ++ ch :: l.drop col], ⟨row, col + 1⟩) := by
  have hcheck : Word.check (col + 1) (l.length + 1) = .ok () := Word.check_of_le (by omega)
  have hshort : (l.take col ++ ch :: l.drop col).length < b.maxWidth := by
    rwa [length_insert l col ch]
  simp only [insert, lineAt_of_getElem? h, hcheck, if_pos hshort, bind, Except.bind, pure,
    Except.pure]

/-- The split falls behind the new character, or at the width if the line was longer. -/
theorem insert_of_le {b : Buffer} {row col k : Nat} {l l' : Text} (h : b.lines[row]? = some l)
    (hc : col ≤ l.length) (hle : b.maxWidth ≤ l.length + 1) (ch : Char)
    (hl' : l.take col ++ ch :: l.drop col = l') (hk : min (col + 1) b.maxWidth = k) :
    b.insert ⟨row, col⟩ ch =
      .ok (b.splice row 1 [l'.take k, l'.drop k], ⟨row + 1, col + 1 - k⟩) := by
  have hcheck : Word.check (col + 1) (l.length + 1) = .ok () := Word.check_of_le (by omega)
  have hlong : ¬ l'.length < b.maxWidth := by
    rw [← hl', length_insert l col ch]
    omega
  simp only [insert, lineAt_of_getElem? h, hcheck, hl', hk, if_neg hlong, bind, Except.bind, pure,
    Except.pure]

theorem delete_of_line {b : Buffer} {row col : Nat} {l : Text} (h : b.lines[row]? = some l)
    (hpos : 0 < col) (hc : col ≤ l.length) :
    b.delete row col =
      .ok (b.splice row 1 [l.take (col - 1) ++ l.drop col], ⟨row, col - 1⟩) := by
  have hne : ¬ col = 0 := by omega
  have hle : ¬ l.length < col := by omega
  simp [delete, hne, hle, lineAt_of_getElem? h, bind, Except.bind, pure, Except.pure]

theorem split_spec {b : Buffer} {row col : Nat} {l : Text} (h : b.lines[row]? = some l)
    (hc : col ≤ l.length) : ∃ r, b.split row col = .ok r ∧ b.Replaced row 1 l col r := by
  refine ⟨_, split_of_line h col, _, ⟨1, 0⟩, rfl, by simp, ?_⟩
  have hp := (Cursor.pointsAt_head (l.drop col) [] (Nat.zero_le _)).cons (l.take col)
  simpa [hc] using hp

theorem insert_spec {b : Buffer} {row col : Nat} {l : Text} (h : b.lines[row]? = some l)
    (hc : col ≤ l.length) (ch : Char) :
    ∃ r, b.insert ⟨row, col⟩ ch = .ok r ∧
      b.Replaced row 1 (l.take col ++ ch :: l.drop col) (col + 1) r := by
  have hlen := length_insert l col ch
  by_cases hlt : l.length + 1 < b.maxWidth
  · refine ⟨_, insert_of_lt h hc hlt ch, [_], ⟨0, col + 1⟩, rfl, by simp, ?_⟩
    exact Cursor.pointsAt_head _ _ (by omega)
  · generalize hl' : l.take col ++ ch :: l.drop col = l' at hlen ⊢
    generalize hk : min (col + 1) b.maxWidth = k
    have hins := insert_of_le h hc (Nat.not_lt.mp hlt) ch hl' hk
    refine ⟨_, hins, [l'.take k, l'.drop k], ⟨1, col + 1 - k⟩, rfl, by simp, ?_⟩
    have hp := (Cursor.pointsAt_head (l'.drop k) [] (k := col + 1 - k)
      (by simp only [List.length_drop]; omega)).cons (l'.take k)
    rwa [List.length_take_of_le (by omega), Nat.add_sub_cancel' (by omega)] at hp

theorem delete_spec {b : Buffer} {row col : Nat} {l : Text} (h : b.lines[row]? = some l)
    (hpos : 0 < col) (hc : col ≤ l.length) :
    ∃ r, b.delete row col = .ok r ∧
      b.Replaced row 1 (l.take (col - 1) ++ l.drop col) (col - 1) r := by
  refine ⟨_, delete_of_line h hpos hc, [_], ⟨0, col - 1⟩, rfl, by simp,
    Cursor.pointsAt_head _ _ ?_⟩
  simp only [List.length_append, List.length_take]
  omega

/-- Every position of a text is found in its pieces. -/
theorem locate_spec {ps : List Text} {k : Nat} (hne : ps ≠ []) (h : k ≤ ps.flatten.length) :
    ∃ c, locate ps k = some c ∧ c.PointsAt ps k := by
  induction ps generalizing k with
  | nil => exact absurd rfl hne
  | cons p ps ih =>
    rw [locate]
    split
    · next hk => exact ⟨_, rfl, Cursor.pointsAt_head p ps hk⟩
    · next hk =>
      rw [List.flatten_cons, List.length_append] at h
      have hps : ps ≠ [] := by
        rintro rfl
        simp only [List.flatten_nil, List.length_nil] at h
        omega
      obtain ⟨c, hc, hp⟩ := ih hps (k := k - p.length) (by omega)
      refine ⟨⟨c.row + 1, c.col⟩, by simp [hc], ?_⟩
      have hp' := hp.cons p
      rwa [Nat.add_sub_cancel' (by omega)] at hp'

/-- A merge joins two lines without a newline and keeps the cursor where they meet, also when the
joined line is cut again. -/
theorem merge_spec {b : Buffer} {row : Nat} {above l : Text} (hpos : 0 < row)
    (ha : b.lines[row - 1]? = some above) (h : b.lines[row]? = some l) (hn : '\n' ∉ above ++ l) :
    ∃ r, b.merge row = .ok r ∧ b.Replaced (row - 1) 2 (above ++ l) above.length r := by
  have hne : ¬ row = 0 := by omega
  simp only [merge, hne, lineAt_of_getElem? h, lineAt_of_getElem? ha, bind, Except.bind, pure,
    Except.pure, if_false]
  split
  · refine ⟨_, rfl, [above ++ l], ⟨0, above.length⟩, rfl, by simp, ?_⟩
    exact Cursor.pointsAt_head _ _ (by simp)
  · have hf : (Text.wrap (above ++ l) b.maxWidth).flatten = above ++ l :=
      Text.flatten_wrap_of_not_mem hn _
    obtain ⟨c, hc, hp⟩ := locate_spec (k := above.length) (Text.wrap_ne_nil (above ++ l) b.maxWidth)
      (by simp [hf])
    refine ⟨_, rfl, Text.wrap (above ++ l) b.maxWidth, c, ?_, hf, hp⟩
    rw [hc]
    rfl

end Buffer

end StorageClient
