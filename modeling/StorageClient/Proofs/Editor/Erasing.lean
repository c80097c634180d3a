import StorageClient.Proofs.Editor.Following
import StorageClient.Proofs.Editor.Merging

/-!
Backspace pressed again and again. At the start of a line it only joins two lines, and where these
are cut again the cursor can end up in a lower row than before. Still every press comes nearer to the
start of the text, and what stands behind the cursor is never touched.
-/

namespace StorageClient

open Text

def PlainText.rest (t : PlainText) : Text := t.text.drop t.pos

theorem PlainText.rest_apply_erase {t : PlainText} (hpos : 0 < t.pos)
    (hle : t.pos ≤ t.text.length) : (t.apply .erase).rest = t.rest := by
  have hlen : (t.text.take (t.pos - 1)).length = t.pos - 1 := List.length_take_of_le (by omega)
  simp only [rest, apply]
  rw [List.eraseIdx_eq_take_drop_succ, List.drop_left' hlen, Nat.sub_add_cancel hpos]

namespace Buffer

def emptyAbove (b : Buffer) (row : Nat) : Nat := (b.lines.take row).count []

/-- What is left to do before the cursor: two for a character, and one for an empty line above. A
cursor behind a character is one ahead of a cursor at the start of a line. -/
def backlog (b : Buffer) (c : Cursor) : Nat := 2 * b.offset c + b.emptyAbove c.row - min c.col 1

variable {b : Buffer} {row : Nat} {above l : Text} {r : Buffer × Cursor}

theorem backlog_le (b : Buffer) (c : Cursor) :
    b.backlog c ≤ 2 * b.offset c + b.emptyAbove c.row := Nat.sub_le _ _

theorem emptyAbove_succ (ha : b.lines[row]? = some above) :
    b.emptyAbove (row + 1) = b.emptyAbove row + if above = [] then 1 else 0 := by
  simp [emptyAbove, List.take_add_one, ha, List.count_singleton]

theorem backlog_delete {col : Nat} (h : b.lines[row]? = some l) (hpos : 0 < col)
    (hc : col ≤ l.length) (hr : b.delete row col = .ok r) :
    r.1.backlog r.2 < b.backlog ⟨row, col⟩ := by
  have hrow : row ≤ b.lines.length := Nat.le_of_lt (List.getElem?_eq_some_iff.mp h).1
  rw [delete_of_line h hpos hc] at hr
  cases hr
  have htake := take_splice hrow 1 (Nat.zero_le [l.take (col - 1) ++ l.drop col].length)
  rw [Nat.add_zero, List.take_zero, List.append_nil] at htake
  simp only [backlog, offset, emptyAbove, htake]
  omega

theorem merge_located (ha : b.lines[row]? = some above) (hl : b.lines[row + 1]? = some l)
    (hn : '\n' ∉ above ++ l) : ∃ pieces c,
      b.merge (row + 1) = .ok (b.splice row 2 pieces, ⟨row + c.row, c.col⟩) ∧
      locate pieces above.length = some c ∧ c.row ≤ pieces.length ∧ [] ∉ pieces.take c.row := by
  by_cases hle : (above ++ l).length ≤ b.maxWidth
  · have hc : locate [above ++ l] above.length = some ⟨0, above.length⟩ := by simp [locate]
    exact ⟨_, _, merge_of_le ha hl hle, hc, Nat.zero_le _, by simp⟩
  · have hlt := Nat.not_le.mp hle
    have hfills := fills_wrap hn b.maxWidth
    have hne : above ++ l ≠ [] := List.length_pos_iff.mp (Nat.zero_lt_of_lt hlt)
    obtain ⟨c, hc, hp⟩ := locate_spec (wrap_ne_nil (above ++ l) b.maxWidth)
      (show above.length ≤ (wrap (above ++ l) b.maxWidth).flatten.length by
        simp [flatten_wrap_of_not_mem hn])
    refine ⟨_, c, merge_of_lt ha hl hlt hc, hc, Nat.le_of_lt hp.row_lt, fun hmem => ?_⟩
    exact hfills.ne_nil_of_mem (Word.max_one_pos _) hne (List.mem_of_mem_take hmem) rfl

/-- Either an empty line is gone, or the cursor stands behind a character now. -/
theorem backlog_merge (ha : b.lines[row]? = some above) (hl : b.lines[row + 1]? = some l)
    (hn : '\n' ∉ above ++ l) (hr : b.merge (row + 1) = .ok r) :
    r.1.backlog r.2 < b.backlog ⟨row + 1, 0⟩ := by
  have hrow : row ≤ b.lines.length := Nat.le_of_lt (List.getElem?_eq_some_iff.mp ha).1
  obtain ⟨pieces, c, hm, hc, hle, hne⟩ := merge_located ha hl hn
  obtain ⟨-, hoff⟩ := isWithin_and_offset_of_merge ha hl hn hm
  obtain rfl := Except.ok.inj (hr.symm.trans hm)
  have hempty : (b.splice row 2 pieces).emptyAbove (row + c.row) = b.emptyAbove row := by
    rw [emptyAbove, take_splice hrow 2 hle, List.count_append, List.count_eq_zero.mpr hne]
    rfl
  have hoff' : b.offset ⟨row + 1, 0⟩ = (b.lines.take (row + 1)).flatten.length := rfl
  simp only [backlog, hempty, emptyAbove_succ ha, hoff, hoff']
  by_cases habove : above = []
  · rw [if_pos habove]
    omega
  · have hcol : 0 < c.col := col_pos_of_locate hc (List.length_pos_iff.mpr habove)
    have hpos : c.col ≤ (b.lines.take (row + 1)).flatten.length := by
      rw [← hoff]
      exact Nat.le_add_left _ _
    omega

end Buffer

namespace Session

variable {s s' : Session}

theorem Sound.backspace_of_start (h : s.Sound) (hc : s.cursor = ⟨0, 0⟩) : s.backspace = .ok s := by
  have hfollow := Viewport.follow_of_shows h.row_lt h.height_lt h.shows
  have hwithin := Cursor.isWithin_of_pointsAt h.pointsAt
  rw [backspace, hc, if_neg (Nat.lt_irrefl 0), if_neg (Nat.lt_irrefl 0)]
  simp only [follow, hwithin, if_true, hfollow, bind, Except.bind, pure, Except.pure]

theorem edit_of_backspace (h : s.backspace = .ok s') (hc : s.cursor ≠ ⟨0, 0⟩) :
    ∃ r v, s' = { s with buffer := r.1, cursor := r.2, viewport := v } ∧
      (0 < s.cursor.col ∧ s.buffer.delete s.cursor.row s.cursor.col = .ok r ∨
        s.cursor.col = 0 ∧ 0 < s.cursor.row ∧ s.buffer.merge s.cursor.row = .ok r) := by
  unfold backspace at h
  split at h
  · next hcol =>
    obtain ⟨r, hr, h⟩ := eq_ok_of_bind h
    obtain ⟨v, rfl⟩ := eq_of_follow h
    exact ⟨r, v, rfl, .inl ⟨hcol, hr⟩⟩
  · next hcol =>
    have hzero : s.cursor.col = 0 := Nat.eq_zero_of_not_pos hcol
    split at h
    · next hrow =>
      obtain ⟨r, hr, h⟩ := eq_ok_of_bind h
      obtain ⟨v, rfl⟩ := eq_of_follow h
      exact ⟨r, v, rfl, .inr ⟨hzero, hrow, hr⟩⟩
    · next hrow =>
      have hstart : s.cursor = ⟨0, 0⟩ :=
        congrArg₂ Cursor.mk (Nat.eq_zero_of_not_pos hrow) hzero
      exact absurd hstart hc

theorem Sound.backlog_backspace (h : s.Sound) (hs' : s.backspace = .ok s')
    (hc : s.cursor ≠ ⟨0, 0⟩) :
    s'.mode = s.mode ∧ s'.buffer.backlog s'.cursor < s.buffer.backlog s.cursor := by
  obtain ⟨r, v, rfl, ⟨hcol, hr⟩ | ⟨hcol, hrow, hr⟩⟩ := edit_of_backspace hs' hc
  · obtain ⟨l, hl, hle⟩ := h.exists_line
    exact ⟨rfl, Buffer.backlog_delete hl hcol hle hr⟩
  · obtain ⟨row, hrow'⟩ : ∃ row, s.cursor.row = row + 1 := ⟨s.cursor.row - 1, by omega⟩
    have hcursor : s.cursor = ⟨row + 1, 0⟩ := congrArg₂ Cursor.mk hrow' hcol
    obtain ⟨above, l, ha, hl, hn⟩ := h.exists_lines hrow'
    rw [hrow'] at hr
    rw [hcursor]
    exact ⟨rfl, Buffer.backlog_merge ha hl hn hr⟩

theorem Sound.rest_backspace (h : s.Sound) :
    ∃ s', s.backspace = .ok s' ∧ s'.Sound ∧ s'.plain.rest = s.plain.rest := by
  obtain ⟨s', hs', hsound, hplain⟩ := h.backspace_spec
  refine ⟨s', hs', hsound, ?_⟩
  obtain ⟨l, -, hle, -, heq⟩ := h.plain_eq
  rw [hplain]
  split
  · next hcol =>
    refine PlainText.rest_apply_erase ?_ ?_
    · rw [heq]
      exact Nat.add_pos_right _ hcol
    · rw [heq]
      simp only [List.length_append]
      omega
  · rfl

theorem apply_backspace_of_editing (hm : s.mode = .editing) (h : s.backspace = .ok s') :
    s.apply .backspace = .ok (s', none) := by
  simp only [apply, apply.onText, hm, h]
  rfl

/-- Enough presses lead to the start of the text, and leave what stood behind the cursor. -/
theorem Sound.run_backspaces (h : s.Sound) (hm : s.mode = .editing) :
    ∃ n ≤ s.buffer.backlog s.cursor, ∃ s', s.run (List.replicate n (.action .backspace)) = .ok s' ∧
      s'.Sound ∧ s'.mode = .editing ∧ s'.cursor = ⟨0, 0⟩ ∧ s'.plain.rest = s.plain.rest := by
  induction hk : s.buffer.backlog s.cursor using Nat.strong_induction_on generalizing s with
  | _ k ih =>
    by_cases hc : s.cursor = ⟨0, 0⟩
    · exact ⟨0, Nat.zero_le _, s, rfl, h, hm, hc, rfl⟩
    · obtain ⟨s₁, hs₁, hsound, hrest⟩ := h.rest_backspace
      obtain ⟨hmode, hless⟩ := h.backlog_backspace hs₁ hc
      obtain ⟨n, hn, s', hs', hsound', hm', hc', hrest'⟩ :=
        ih _ (hk ▸ hless) hsound (hmode.trans hm) rfl
      refine ⟨n + 1, by omega, s', ?_, hsound', hm', hc', hrest'.trans hrest⟩
      have hfeed : s.feed (.action .backspace) = .ok (s₁, none) := apply_backspace_of_editing hm hs₁
      rw [List.replicate_succ, run, hfeed]
      exact hs'

/-- From every moment of a course of changes at which the text has the focus, Backspace leads to the
start of the text, in at most two presses for each character before the cursor and one for each empty
line above it. What stood behind the cursor is left, and more presses change nothing. -/
theorem course_start_erases (content : Text) {g : Geometry} (hg : g.window.height ≤ Word.max16)
    {cs : List Change} (hcs : ∀ c ∈ cs, c.Possible) :
    ∃ ss, (start content g).course cs = .ok ss ∧ ∀ s ∈ ss, s.mode = .editing →
      let p := s.buffer.offset s.cursor
      let e := (s.buffer.lines.take s.cursor.row).count []
      ∃ n ≤ 2 * p + e, ∃ s', s.run (List.replicate n (.action .backspace)) = .ok s' ∧
        s'.cursor = ⟨0, 0⟩ ∧ s'.buffer.flatten = s.buffer.flatten.drop p ∧
        s'.apply .backspace = .ok (s', none) := by
  obtain ⟨ss, hss, hsound⟩ := course_start_sound content hg hcs
  refine ⟨ss, hss, fun s hs hm => ?_⟩
  obtain ⟨n, hn, s', hs', hsound', hm', hc', hrest⟩ := (hsound s hs).run_backspaces hm
  refine ⟨n, Nat.le_trans hn (Buffer.backlog_le _ _), s', hs', hc', ?_, ?_⟩
  · have hoff : s'.buffer.offset s'.cursor = 0 := by simp [hc', Buffer.offset]
    simpa [PlainText.rest, plain, hoff] using hrest
  · exact apply_backspace_of_editing hm' (hsound'.backspace_of_start hc')

/-- Lines that have outlived a wider window, an empty one among them, and the cursor in the last. -/
def outliving : List Change :=
  [.window (.ofTextArea 3 2), .input (.action (.move .down)),
    .input (.event (.key { code := .down })), .input (.action (.move .right))]

theorem course_start_erases_outliving :
    (Geometry.ofTextArea 6 4).window.height ≤ Word.max16 ∧ (∀ c ∈ outliving, c.Possible) ∧
      ∃ ss, (start "abcdef\n\ngh".toList (.ofTextArea 6 4)).course outliving = .ok ss ∧
        ∃ s ∈ ss, s.mode = .editing ∧ s.cursor = ⟨2, 1⟩ ∧ ∃ n ≤ 2 * 7 + 1, ∃ s',
          s.run (List.replicate n (.action .backspace)) = .ok s' ∧ s'.cursor = ⟨0, 0⟩ ∧
            s'.buffer.flatten = "h".toList := by
  have hg : (Geometry.ofTextArea 6 4).window.height ≤ Word.max16 := by decide
  have hcs : ∀ c ∈ outliving, c.Possible := by decide
  obtain ⟨ss, hss, herases⟩ := course_start_erases "abcdef\n\ngh".toList hg hcs
  have hlast : ((start "abcdef\n\ngh".toList (.ofTextArea 6 4)).course outliving).toOption.any
      (fun ss => ss.any fun s => decide (s.mode = .editing ∧ s.cursor = ⟨2, 1⟩ ∧
        s.buffer.offset s.cursor = 7 ∧ (s.buffer.lines.take s.cursor.row).count [] = 1 ∧
        s.buffer.flatten.drop 7 = "h".toList)) = true := by
    decide +kernel
  rw [hss] at hlast
  obtain ⟨s, hs, hall⟩ := List.any_eq_true.mp hlast
  obtain ⟨hm, hc, hoff, hempty, hrest⟩ := of_decide_eq_true hall
  obtain ⟨n, hn, s', hs', hc', htext, -⟩ := herases s hs hm
  rw [hoff, hempty] at hn
  rw [hoff, hrest] at htext
  exact ⟨hg, hcs, ss, hss, s, hs, hm, hc, n, hn, s', hs', hc', htext⟩

end Session

end StorageClient
