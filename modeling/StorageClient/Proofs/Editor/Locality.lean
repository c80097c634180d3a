import StorageClient.Proofs.Editor.Merging

/-!
Edits are local: each touches the line it is made in and no other. Breaking a line and joining two
undo each other wherever the joined line fits the width.
-/

namespace StorageClient.Buffer

structure Rewritten (b b' : Buffer) (row : Nat) (new : List Text) : Prop where
  maxWidth_eq : b'.maxWidth = b.maxWidth
  lines_eq : b'.lines = b.lines.take row ++ new ++ b.lines.drop (row + 1)

variable {b : Buffer} {row col : Nat} {l above : Text}

theorem rewritten_splice (b : Buffer) (row : Nat) (new : List Text) :
    b.Rewritten (b.splice row 1 new) row new := ⟨rfl, rfl⟩

/-! ### Lines in place of lines -/

theorem splice_eq_self {n : Nat} {old : List Text} (h : (b.lines.drop row).take n = old) :
    b.splice row n old = b := by
  ext1
  · simp only [splice]
    rw [← h, List.append_assoc, ← List.drop_drop, List.take_append_drop, List.take_append_drop]
  · rfl

theorem splice_splice (hrow : row ≤ b.lines.length) (n : Nat) (new new' : List Text) :
    (b.splice row n new).splice row new.length new' = b.splice row n new' := by
  have htake : (b.splice row n new).lines.take row = b.lines.take row := by
    simpa using take_splice hrow n (Nat.zero_le new.length)
  have hdrop := drop_splice hrow n new
  ext1
  · change (b.splice row n new).lines.take row ++ new' ++
      (b.splice row n new).lines.drop (row + new.length) = (b.splice row n new').lines
    rw [htake, hdrop]
    rfl
  · rfl

theorem getElem?_splice (hrow : row ≤ b.lines.length) (n : Nat) {new : List Text} {i : Nat}
    (hi : i < new.length) : (b.splice row n new).lines[row + i]? = new[i]? := by
  have hlen : (b.lines.take row).length = row := List.length_take_of_le hrow
  simp only [splice]
  rw [List.append_assoc, List.getElem?_append_right (by omega), hlen, Nat.add_sub_cancel_left,
    List.getElem?_append_left hi]

theorem take_one_drop (h : b.lines[row]? = some l) : (b.lines.drop row).take 1 = [l] := by
  obtain ⟨hrow, rfl⟩ := List.getElem?_eq_some_iff.mp h
  rw [List.drop_eq_getElem_cons hrow, List.take_succ_cons, List.take_zero]

theorem take_two_drop (ha : b.lines[row]? = some above) (h : b.lines[row + 1]? = some l) :
    (b.lines.drop row).take 2 = [above, l] := by
  obtain ⟨hrow, rfl⟩ := List.getElem?_eq_some_iff.mp ha
  rw [List.drop_eq_getElem_cons hrow, List.take_succ_cons, take_one_drop h]

/-! ### The two ways round -/

/-- A line that fits the width is broken and joined again. -/
theorem merge_split (h : b.lines[row]? = some l) (hc : col ≤ l.length)
    (hle : l.length ≤ b.maxWidth) :
    ∃ b' c', b.split row col = .ok (b', c') ∧ b'.merge (row + 1) = .ok (b, ⟨row, col⟩) := by
  have hrow : row ≤ b.lines.length := Nat.le_of_lt (List.getElem?_eq_some_iff.mp h).1
  have hhead : (b.splice row 1 [l.take col, l.drop col]).lines[row]? = some (l.take col) :=
    getElem?_splice hrow 1 (i := 0) (by simp)
  have htail : (b.splice row 1 [l.take col, l.drop col]).lines[row + 1]? = some (l.drop col) :=
    getElem?_splice hrow 1 (i := 1) (by simp)
  have hback : (b.splice row 1 [l.take col, l.drop col]).splice row 2 [l] = b := by
    have hsplice := splice_splice hrow 1 [l.take col, l.drop col] [l]
    rwa [splice_eq_self (take_one_drop h)] at hsplice
  refine ⟨_, _, split_of_line h col, ?_⟩
  rw [merge_of_le hhead htail (by simpa using hle), List.take_append_drop, hback,
    List.length_take_of_le hc]

/-- Two lines that fit the width together are joined and broken where they met. -/
theorem split_merge (ha : b.lines[row]? = some above) (h : b.lines[row + 1]? = some l)
    (hle : (above ++ l).length ≤ b.maxWidth) :
    ∃ b' c', b.merge (row + 1) = .ok (b', c') ∧
      b'.split c'.row c'.col = .ok (b, ⟨row + 1, 0⟩) := by
  have hrow : row ≤ b.lines.length := Nat.le_of_lt (List.getElem?_eq_some_iff.mp ha).1
  have hline : (b.splice row 2 [above ++ l]).lines[row]? = some (above ++ l) :=
    getElem?_splice hrow 2 (i := 0) (by simp)
  have hback : (b.splice row 2 [above ++ l]).splice row 1 [above, l] = b := by
    have hsplice := splice_splice hrow 2 [above ++ l] [above, l]
    rwa [splice_eq_self (take_two_drop ha h)] at hsplice
  refine ⟨_, _, merge_of_le ha h hle, ?_⟩
  rw [split_of_line hline, List.take_left, List.drop_left, hback]

/-! ### Insertions -/

theorem insert_rewritten (h : b.lines[row]? = some l) (hc : col ≤ l.length) (ch : Char) :
    ∃ b' c' new, b.insert ⟨row, col⟩ ch = .ok (b', c') ∧ b.Rewritten b' row new ∧
      new.flatten = l.take col ++ ch :: l.drop col ∧
      new.length = if l.length + 1 < b.maxWidth then 1 else 2 := by
  by_cases hlt : l.length + 1 < b.maxWidth
  · refine ⟨_, _, _, insert_of_lt h hc hlt ch, rewritten_splice b row _, by simp, ?_⟩
    rw [if_pos hlt]
    rfl
  · have hins := insert_of_le h hc (Nat.not_lt.mp hlt) ch rfl rfl
    refine ⟨_, _, _, hins, rewritten_splice b row _, by simp, ?_⟩
    rw [if_neg hlt]
    rfl

/-- An edit of a line leaves all other lines alone. Inserted characters, line breaks and erased
characters leave in its place one line, or two where the line is broken or grows to the width. A
break and a join undo each other, in either order, as long as the joined line fits the width. -/
theorem edits_local (h : b.lines[row]? = some l) :
    (∀ col ≤ l.length, ∀ ch, ∃ b' c' new, b.insert ⟨row, col⟩ ch = .ok (b', c') ∧
      b.Rewritten b' row new ∧ new.flatten = l.take col ++ ch :: l.drop col ∧
      new.length = if l.length + 1 < b.maxWidth then 1 else 2) ∧
    (∀ col ≤ l.length, ∃ b' c', b.split row col = .ok (b', c') ∧
      b.Rewritten b' row [l.take col, l.drop col]) ∧
    (∀ col ≤ l.length, 0 < col → ∃ b' c', b.delete row col = .ok (b', c') ∧
      b.Rewritten b' row [l.eraseIdx (col - 1)]) ∧
    (∀ col ≤ l.length, l.length ≤ b.maxWidth → ∃ b' c', b.split row col = .ok (b', c') ∧
      b'.merge (row + 1) = .ok (b, ⟨row, col⟩)) ∧
    ∀ above, 0 < row → b.lines[row - 1]? = some above → above.length + l.length ≤ b.maxWidth →
      ∃ b' c', b.merge row = .ok (b', c') ∧ b'.split c'.row c'.col = .ok (b, ⟨row, 0⟩) := by
  refine ⟨fun col hc ch => insert_rewritten h hc ch,
    fun col hc => ⟨_, _, split_of_line h col, rewritten_splice b row _⟩,
    fun col hc hpos => ?_, fun col hc hle => merge_split h hc hle, ?_⟩
  · have herase : l.eraseIdx (col - 1) = l.take (col - 1) ++ l.drop col := by
      rw [List.eraseIdx_eq_take_drop_succ, Nat.sub_add_cancel hpos]
    rw [herase]
    exact ⟨_, _, delete_of_line h hpos hc, rewritten_splice b row _⟩
  · intro above hpos ha hle
    obtain ⟨r, rfl⟩ : ∃ r, row = r + 1 := ⟨row - 1, by omega⟩
    exact split_merge ha h (by rwa [List.length_append])

/-- Two lines that fill the width together, and an empty one. -/
def brimming : Buffer := ⟨["ab".toList, "cd".toList, []], 4, by decide⟩

theorem edits_local_brimming :
    brimming.lines[1]? = some "cd".toList ∧
      (∃ b' c', brimming.split 1 1 = .ok (b', c') ∧ b'.merge 2 = .ok (brimming, ⟨1, 1⟩)) ∧
      ∃ b' c', brimming.merge 1 = .ok (b', c') ∧
        b'.split c'.row c'.col = .ok (brimming, ⟨1, 0⟩) := by
  have h : brimming.lines[1]? = some "cd".toList := rfl
  obtain ⟨-, -, -, hbreak, hjoin⟩ := edits_local h
  exact ⟨h, hbreak 1 (by decide) (by decide), hjoin "ab".toList (by decide) rfl (by decide)⟩

end StorageClient.Buffer
