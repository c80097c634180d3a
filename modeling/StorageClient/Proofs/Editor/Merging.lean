import StorageClient.Proofs.Editor.Moves
import StorageClient.Proofs.Text.Wrapping

/-!
A line joined with the one above it, exactly: which lines there are afterwards, and where among them
the cursor comes to stand. The place where the two lines meet can fall between two pieces; it is the
end of the first one then, and not the start of the second.
-/

namespace StorageClient.Buffer

open Text

/-! ### Places in pieces -/

theorem col_pos_of_locate {ps : List Text} {k : Nat} {c : Cursor} (h : locate ps k = some c)
    (hk : 0 < k) : 0 < c.col := by
  induction ps generalizing k c with
  | nil => cases h
  | cons p ps ih =>
    rw [locate] at h
    split at h
    · cases h
      exact hk
    · obtain ⟨c', hc', rfl⟩ := Option.map_eq_some_iff.mp h
      have hcol : 0 < c'.col := ih hc' (by omega)
      exact hcol

theorem locate_end (front back : List Text) {piece : Text} (hpiece : piece ≠ []) :
    locate (front ++ piece :: back) (front ++ [piece]).flatten.length =
      some ⟨front.length, piece.length⟩ := by
  have hpos : 0 < piece.length := List.length_pos_iff.mpr hpiece
  induction front with
  | nil => simp [locate]
  | cons p front ih =>
    have hlen : ((p :: front) ++ [piece]).flatten.length =
        p.length + (front ++ [piece]).flatten.length := by simp
    have hle : piece.length ≤ (front ++ [piece]).flatten.length := by simp
    rw [hlen, List.cons_append, locate, if_neg (by omega), Nat.add_sub_cancel_left, ih]
    rfl

/-! ### Joined lines -/

/-- What it means that the line below `row` was joined with `row`: the two held `above` and `l`, and
`b'` and `c` are the lines and the cursor afterwards. -/
structure Joined (b : Buffer) (row : Nat) (above l : Text) (pieces : List Text) (b' : Buffer)
    (c : Cursor) : Prop where
  maxWidth_eq : b'.maxWidth = b.maxWidth
  /-- No other line is touched. -/
  lines_eq : b'.lines = b.lines.take row ++ pieces ++ b.lines.drop (row + 2)
  pieces_of_le : (above ++ l).length ≤ b.maxWidth → pieces = [above ++ l]
  pieces_of_lt : b.maxWidth < (above ++ l).length → Fills b.maxWidth (above ++ l) pieces
  isWithin : c.isWithin b' = true
  /-- The cursor has as many characters before it as the lines up to `row` had. -/
  offset_eq : b'.offset c = (b.lines.take (row + 1)).flatten.length
  above_eq_nil : c.col = 0 → above = []
  /-- If the lines met at the end of a piece, the cursor is there. -/
  at_end : ∀ front piece back, pieces = front ++ piece :: back →
    above.length = (front ++ [piece]).flatten.length → c = ⟨row + front.length, piece.length⟩
  /-- The search for the place where the lines met finds one. -/
  located : b.maxWidth < (above ++ l).length →
    ∃ c₀, locate pieces above.length = some c₀ ∧ c = ⟨row + c₀.row, c₀.col⟩
  /-- The length of the upper line would be no column of any piece, were it taken for one. -/
  length_lt : b.maxWidth < above.length → ∀ p ∈ pieces, p.length < above.length

variable {b : Buffer} {row : Nat} {above l : Text}

theorem merge_of_le (ha : b.lines[row]? = some above) (hl : b.lines[row + 1]? = some l)
    (hle : (above ++ l).length ≤ b.maxWidth) :
    b.merge (row + 1) = .ok (b.splice row 2 [above ++ l], ⟨row, above.length⟩) := by
  simp only [merge, Nat.add_one_ne_zero, Nat.add_sub_cancel, lineAt_of_getElem? hl,
    lineAt_of_getElem? ha, bind, Except.bind, pure, Except.pure, if_false, if_pos hle]

theorem merge_of_lt (ha : b.lines[row]? = some above) (hl : b.lines[row + 1]? = some l)
    (hlt : b.maxWidth < (above ++ l).length) {c : Cursor}
    (hc : locate (wrap (above ++ l) b.maxWidth) above.length = some c) :
    b.merge (row + 1) =
      .ok (b.splice row 2 (wrap (above ++ l) b.maxWidth), ⟨row + c.row, c.col⟩) := by
  simp only [merge, Nat.add_one_ne_zero, Nat.add_sub_cancel, lineAt_of_getElem? hl,
    lineAt_of_getElem? ha, hc, bind, Except.bind, pure, Except.pure, if_false,
    if_neg (Nat.not_le.mpr hlt), Option.getD_some]

/-- The cursor of a joined line, whichever way it is set in lines. -/
theorem isWithin_and_offset_of_merge (ha : b.lines[row]? = some above)
    (hl : b.lines[row + 1]? = some l) (hn : '\n' ∉ above ++ l) {b' : Buffer} {c : Cursor}
    (h : b.merge (row + 1) = .ok (b', c)) :
    c.isWithin b' = true ∧ b'.offset c = (b.lines.take (row + 1)).flatten.length := by
  obtain ⟨r, hr, hrep⟩ := merge_spec (Nat.succ_pos row) ha hl hn
  obtain rfl : (b', c) = r := Except.ok.inj (h.symm.trans hr)
  have hrow : row < b.lines.length := (List.getElem?_eq_some_iff.mp ha).1
  have hp := hrep.pointsAt (Nat.le_of_lt hrow)
  have hlen : (b.lines.take (row + 1)).flatten.length =
      (b.lines.take row).flatten.length + above.length := by
    rw [List.take_add_one, ha]
    simp
  rw [hlen]
  exact ⟨Cursor.isWithin_of_pointsAt hp, offset_of_pointsAt hp⟩

theorem joined_of_le (ha : b.lines[row]? = some above) (hl : b.lines[row + 1]? = some l)
    (hn : '\n' ∉ above ++ l) (hle : (above ++ l).length ≤ b.maxWidth) :
    b.Joined row above l [above ++ l] (b.splice row 2 [above ++ l]) ⟨row, above.length⟩ := by
  obtain ⟨hin, hoff⟩ := isWithin_and_offset_of_merge ha hl hn (merge_of_le ha hl hle)
  have hlong : ¬ b.maxWidth < (above ++ l).length := Nat.not_lt.mpr hle
  refine ⟨rfl, rfl, fun _ => rfl, (absurd · hlong), hin, hoff, List.length_eq_zero_iff.mp, ?_,
    (absurd · hlong), fun hlt => ?_⟩
  · intro front piece back hpieces hlen
    cases front with
    | nil =>
      obtain ⟨rfl, -⟩ := List.cons.inj hpieces
      simpa using hlen
    | cons p front => simp at hpieces
  · rw [List.length_append] at hle
    omega

theorem joined_of_lt (ha : b.lines[row]? = some above) (hl : b.lines[row + 1]? = some l)
    (hn : '\n' ∉ above ++ l) (hlt : b.maxWidth < (above ++ l).length) {c : Cursor}
    (hc : locate (wrap (above ++ l) b.maxWidth) above.length = some c) :
    b.Joined row above l (wrap (above ++ l) b.maxWidth)
      (b.splice row 2 (wrap (above ++ l) b.maxWidth)) ⟨row + c.row, c.col⟩ := by
  obtain ⟨hin, hoff⟩ := isWithin_and_offset_of_merge ha hl hn (merge_of_lt ha hl hlt hc)
  have hpos := b.maxWidth_pos
  have hfills : Fills b.maxWidth (above ++ l) (wrap (above ++ l) b.maxWidth) := by
    have h := fills_wrap hn b.maxWidth
    rwa [Nat.max_eq_left hpos] at h
  have hne : above ++ l ≠ [] := List.length_pos_iff.mp (Nat.zero_lt_of_lt hlt)
  refine ⟨rfl, rfl, (absurd · (Nat.not_le.mpr hlt)), fun _ => hfills, hin, hoff, fun hzero => ?_, ?_,
    fun _ => ⟨c, hc, rfl⟩, fun hlong p hp => Nat.lt_of_le_of_lt (hfills.length_le hp) hlong⟩
  · by_contra habove
    have hcol := col_pos_of_locate hc (List.length_pos_iff.mpr habove)
    exact Nat.ne_of_gt hcol hzero
  · intro front piece back hpieces hlen
    have hpiece : piece ≠ [] := hfills.ne_nil_of_mem hpos hne (by simp [hpieces])
    rw [hpieces, hlen, locate_end front back hpiece] at hc
    cases hc
    rfl

/-- Every line but the first can be joined with the one above it. -/
theorem merge_joined (hb : ∀ l ∈ b.lines, '\n' ∉ l) (hrow : row + 1 < b.count) :
    ∃ above l pieces b' c, b.lines[row]? = some above ∧ b.lines[row + 1]? = some l ∧
      b.merge (row + 1) = .ok (b', c) ∧ b.Joined row above l pieces b' c := by
  obtain ⟨above, ha⟩ := Cursor.exists_line (Nat.lt_of_succ_lt hrow)
  obtain ⟨l, hl⟩ := Cursor.exists_line hrow
  have hn : '\n' ∉ above ++ l := by
    simp [hb above (List.mem_of_getElem? ha), hb l (List.mem_of_getElem? hl)]
  by_cases hle : (above ++ l).length ≤ b.maxWidth
  · exact ⟨above, l, _, _, _, ha, hl, merge_of_le ha hl hle, joined_of_le ha hl hn hle⟩
  · have hlt := Nat.not_le.mp hle
    -- The wrapped pieces hold all of the joined line, so the search cannot run past them.
    obtain ⟨c, hc, -⟩ := locate_spec (wrap_ne_nil (above ++ l) b.maxWidth)
      (show above.length ≤ (wrap (above ++ l) b.maxWidth).flatten.length by
        simp [flatten_wrap_of_not_mem hn])
    exact ⟨above, l, _, _, _, ha, hl, merge_of_lt ha hl hlt hc, joined_of_lt ha hl hn hlt hc⟩

def outgrown : Buffer :=
  ⟨["x".toList, "abcdef".toList, "gh".toList, []], 3, by decide⟩

theorem merge_joined_outgrown :
    (∀ l ∈ outgrown.lines, '\n' ∉ l) ∧ 1 + 1 < outgrown.count ∧
      ∃ above l pieces b' c, outgrown.lines[1]? = some above ∧ outgrown.lines[2]? = some l ∧
        outgrown.merge 2 = .ok (b', c) ∧ outgrown.Joined 1 above l pieces b' c ∧
        outgrown.maxWidth < above.length ∧ c = ⟨2, 3⟩ := by
  have hb : ∀ l ∈ outgrown.lines, '\n' ∉ l := by decide
  obtain ⟨above, l, pieces, b', c, ha, hl, hm, hjoined⟩ :=
    merge_joined hb (show 1 + 1 < outgrown.count by decide)
  obtain rfl : "abcdef".toList = above := Option.some.inj ha
  have hcursor : (outgrown.merge 2).map (·.2) = .ok ⟨2, 3⟩ := by decide +kernel
  rw [show outgrown.merge 2 = _ from hm] at hcursor
  exact ⟨hb, by decide, _, l, pieces, b', c, rfl, hl, hm, hjoined, by decide,
    Except.ok.inj hcursor⟩

end StorageClient.Buffer
