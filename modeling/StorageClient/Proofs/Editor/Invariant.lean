import StorageClient.Proofs.Editor.Moves
import StorageClient.Proofs.Editor.PlainText

/-!
The invariant of an edit session and the one statement of what a step does: it never faults, keeps
the invariant, and changes the text as the plain command does that the step amounts to.
-/

namespace StorageClient

/-- The window shows `row` and wastes no row below the last of `n` lines. -/
def Viewport.Shows (v : Viewport) (row n : Nat) : Prop :=
  v.scroll ≤ row ∧ row < v.scroll + v.height ∧ v.scroll ≤ n - v.height

namespace Viewport

theorem shows_iff {v : Viewport} {row n : Nat} :
    v.Shows row n ↔ row + 1 - v.height ≤ v.scroll ∧ v.scroll ≤ min row (n - v.height) := by
  have hpos := v.height_pos
  simp only [Shows]
  omega

/-- Following keeps the scroll between the least and the greatest at which `row` is in view. -/
theorem follow_eq {v : Viewport} {row n : Nat} (hrow : row < n)
    (hsum : v.scroll + v.height ≤ max row n + 1 ∨ v.scroll + v.height < Word.size64) :
    v.follow row n = .ok { v with
      scroll := max (row + 1 - v.height) (min v.scroll (min row (n - v.height))) } := by
  have hpos := v.height_pos
  have hcheck : Word.check (v.scroll + v.height) (max row n + 1) = .ok () := by
    rw [Word.check, if_pos hsum]
  have hnext : Word.check (row + 1) n = .ok () := Word.check_of_le hrow
  simp only [follow, maxScroll, hcheck, hnext, bind, Except.bind, pure, Except.pure]
  split
  · congr 2
    omega
  · split
    · congr 2
      omega
    · congr 2
      omega

/-- Following works from any scroll in range of the lines, or of one line more. -/
theorem follow_spec {v : Viewport} {row n : Nat} (hrow : row < n)
    (hs : v.scroll ≤ n + 1 - v.height) (hh : v.height ≤ Word.max16) :
    ∃ v', v.follow row n = .ok v' ∧ v'.height = v.height ∧ v'.Shows row n := by
  have hpos := v.height_pos
  have hsize : Word.max16 < Word.size64 := by decide
  refine ⟨_, follow_eq hrow (by omega), rfl, ?_⟩
  rw [shows_iff]
  dsimp only
  omega

theorem resize_spec (v : Viewport) {height row n : Nat} (hrow : row < n)
    (hh : max height 1 ≤ Word.max16) :
    ∃ v', v.resize height row n = .ok v' ∧ v'.height = max height 1 ∧ v'.Shows row n := by
  apply follow_spec hrow
  · dsimp only
    omega
  · exact hh

end Viewport

theorem Geometry.visibleHeight_le {g : Geometry} (h : g.window.height ≤ Word.max16) :
    g.visibleHeight ≤ Word.max16 := by
  have h1 : 1 ≤ Word.max16 := by decide
  unfold visibleHeight
  omega

theorem Geometry.height_ofTerminal_le (w h : Nat) :
    (ofTerminal w h).window.height ≤ Word.max16 := by
  simp only [ofTerminal, Rect.within]
  omega

namespace Session

/-- The invariant: the cursor lies in the buffer and in view, lines hold no newline, and buffer
and viewport have the sizes of a window on the screen. -/
structure Sound (s : Session) : Prop where
  row_lt : s.cursor.row < s.buffer.count
  col_le : s.cursor.col ≤ s.buffer.lineLength s.cursor.row
  newlineFree : ∀ l ∈ s.buffer.lines, '\n' ∉ l
  shows : s.viewport.Shows s.cursor.row s.buffer.count
  width_eq : s.buffer.maxWidth = s.geometry.maxWidth
  height_eq : s.viewport.height = s.geometry.visibleHeight
  height_le : s.viewport.height ≤ Word.max16

theorem Sound.exists_line {s : Session} (h : s.Sound) :
    ∃ l, s.buffer.lines[s.cursor.row]? = some l ∧ s.cursor.col ≤ l.length := by
  have hl := List.getElem?_eq_getElem (l := s.buffer.lines) h.row_lt
  refine ⟨_, hl, ?_⟩
  have hc := h.col_le
  rwa [Buffer.lineLength, hl, Option.getD_some] at hc

theorem Sound.pointsAt {s : Session} (h : s.Sound) :
    s.cursor.PointsAt s.buffer.lines (s.buffer.offset s.cursor) := by
  obtain ⟨l, hl, hc⟩ := h.exists_line
  exact ⟨l, hl, hc, rfl⟩

theorem start_sound (content : Text) {g : Geometry} (hg : g.window.height ≤ Word.max16) :
    (start content g).Sound where
  row_lt := List.length_pos_iff.mpr (Buffer.ofText_lines_ne_nil content g.maxWidth)
  col_le := Nat.zero_le _
  newlineFree := fun _ hl => Text.not_mem_of_mem_wrap hl
  shows := by
    refine ⟨Nat.zero_le _, ?_, Nat.zero_le _⟩
    exact Nat.lt_of_lt_of_eq (Viewport.top g.visibleHeight).height_pos (Nat.zero_add _).symm
  width_eq := Nat.max_eq_left g.maxWidth_pos
  height_eq := Nat.max_eq_left g.visibleHeight_pos
  height_le := by
    have hv := Geometry.visibleHeight_le hg
    rwa [← Nat.max_eq_left g.visibleHeight_pos] at hv

theorem Sound.edited_spec {s : Session} (h : s.Sound) {r : Buffer × Cursor} {p : Nat}
    (hp : r.2.PointsAt r.1.lines p) (hn : ∀ l ∈ r.1.lines, '\n' ∉ l)
    (hw : r.1.maxWidth = s.buffer.maxWidth) (hcount : s.buffer.count ≤ r.1.count + 1) :
    ∃ s', s.edited r = .ok s' ∧ s'.Sound ∧ s'.plain = ⟨r.1.flatten, p⟩ := by
  have hin : r.2.isWithin r.1 = true := Cursor.isWithin_of_pointsAt hp
  obtain ⟨-, -, hscroll⟩ := h.shows
  obtain ⟨v, hv, hheight, hshows⟩ :=
    s.viewport.follow_spec hp.row_lt (n := r.1.count) (by omega) h.height_le
  refine ⟨⟨r.1, r.2, v, s.geometry, s.mode⟩, ?_, ?_, ?_⟩
  · simp only [edited, follow, hin, if_true, hv, bind, Except.bind, pure, Except.pure]
  · obtain ⟨hrow, hcol⟩ := Cursor.isWithin_iff.mp hin
    exact ⟨hrow, hcol, hn, hshows, hw.trans h.width_eq, hheight.trans h.height_eq,
      hheight ▸ h.height_le⟩
  · simp only [plain, Buffer.offset_of_pointsAt hp]

/-- An edit can be taken over; `new` takes the place of what the replaced lines held. -/
theorem Sound.replaced_spec {s : Session} (h : s.Sound) {row n k : Nat} {new : Text}
    {r : Buffer × Cursor} (hr : s.buffer.Replaced row n new k r) (hrow : row ≤ s.buffer.count)
    (hn : n ≤ 2) (hnew : '\n' ∉ new) :
    ∃ s', s.edited r = .ok s' ∧ s'.Sound ∧ s'.plain =
      ⟨(s.buffer.lines.take row).flatten ++ new ++ (s.buffer.lines.drop (row + n)).flatten,
        (s.buffer.lines.take row).flatten.length + k⟩ := by
  rw [← hr.flatten_eq]
  exact h.edited_spec (hr.pointsAt hrow) (hr.not_mem h.newlineFree hnew) hr.maxWidth_eq
    (hr.count_le hn)

theorem Sound.plain_eq {s : Session} (h : s.Sound) :
    ∃ l, s.buffer.lines[s.cursor.row]? = some l ∧ s.cursor.col ≤ l.length ∧ '\n' ∉ l ∧
      s.plain = ⟨(s.buffer.lines.take s.cursor.row).flatten ++ l ++
          (s.buffer.lines.drop (s.cursor.row + 1)).flatten,
        (s.buffer.lines.take s.cursor.row).flatten.length + s.cursor.col⟩ := by
  obtain ⟨l, hl, hc⟩ := h.exists_line
  refine ⟨l, hl, hc, h.newlineFree l (List.mem_of_getElem? hl), ?_⟩
  rw [plain, Buffer.flatten_of_line hl, Buffer.offset]

theorem Sound.insert_spec {s : Session} (h : s.Sound) {c : Char} (hc : c ≠ '\n') :
    ∃ r s', s.buffer.insert s.cursor c = .ok r ∧ s.edited r = .ok s' ∧ s'.Sound ∧
      s'.plain = s.plain.apply (.insert c) := by
  obtain ⟨l, hl, hcol, hn, hplain⟩ := h.plain_eq
  obtain ⟨r, hr, hrep⟩ := Buffer.insert_spec hl hcol c
  have hnew : '\n' ∉ l.take s.cursor.col ++ c :: l.drop s.cursor.col := by
    intro hm
    simp only [List.mem_append, List.mem_cons] at hm
    rcases hm with hm | hm | hm
    · exact hn (List.mem_of_mem_take hm)
    · exact hc hm.symm
    · exact hn (List.mem_of_mem_drop hm)
  obtain ⟨s', hs', hsound, hp⟩ := h.replaced_spec hrep (Nat.le_of_lt h.row_lt) (by omega) hnew
  refine ⟨r, s', hr, hs', hsound, ?_⟩
  rw [hp, hplain, PlainText.apply_insert_between _ _ _ _ hcol]

theorem Sound.split_spec {s : Session} (h : s.Sound) :
    ∃ r s', s.buffer.split s.cursor.row s.cursor.col = .ok r ∧ s.edited r = .ok s' ∧ s'.Sound ∧
      s'.plain = s.plain := by
  obtain ⟨l, hl, hcol, hn, hplain⟩ := h.plain_eq
  obtain ⟨r, hr, hrep⟩ := Buffer.split_spec hl hcol
  obtain ⟨s', hs', hsound, hp⟩ := h.replaced_spec hrep (Nat.le_of_lt h.row_lt) (by omega) hn
  exact ⟨r, s', hr, hs', hsound, hp.trans hplain.symm⟩

theorem Sound.delete_spec {s : Session} (h : s.Sound) (hpos : 0 < s.cursor.col) :
    ∃ r s', s.buffer.delete s.cursor.row s.cursor.col = .ok r ∧ s.edited r = .ok s' ∧ s'.Sound ∧
      s'.plain = s.plain.apply .erase := by
  obtain ⟨l, hl, hcol, hn, hplain⟩ := h.plain_eq
  obtain ⟨r, hr, hrep⟩ := Buffer.delete_spec hl hpos hcol
  have hnew : '\n' ∉ l.take (s.cursor.col - 1) ++ l.drop s.cursor.col := by
    intro hm
    rcases List.mem_append.mp hm with hm | hm
    · exact hn (List.mem_of_mem_take hm)
    · exact hn (List.mem_of_mem_drop hm)
  obtain ⟨s', hs', hsound, hp⟩ := h.replaced_spec hrep (Nat.le_of_lt h.row_lt) (by omega) hnew
  refine ⟨r, s', hr, hs', hsound, ?_⟩
  rw [hp, hplain, PlainText.apply_erase_between _ _ _ hpos hcol]

theorem Sound.exists_lines {s : Session} (h : s.Sound) {row : Nat} (hrow : s.cursor.row = row + 1) :
    ∃ above l, s.buffer.lines[row]? = some above ∧ s.buffer.lines[row + 1]? = some l ∧
      '\n' ∉ above ++ l := by
  have hlt : row + 1 < s.buffer.count := hrow ▸ h.row_lt
  obtain ⟨above, ha⟩ := Cursor.exists_line (Nat.lt_of_succ_lt hlt)
  obtain ⟨l, hl⟩ := Cursor.exists_line hlt
  have hna : '\n' ∉ above := h.newlineFree above (List.mem_of_getElem? ha)
  have hnl : '\n' ∉ l := h.newlineFree l (List.mem_of_getElem? hl)
  exact ⟨above, l, ha, hl, by simp [hna, hnl]⟩

/-- Joining two lines moves no character, and the cursor stays before the second one's first. -/
theorem Sound.merge_spec {s : Session} (h : s.Sound) (hcol : s.cursor.col = 0)
    (hpos : 0 < s.cursor.row) :
    ∃ r s', s.buffer.merge s.cursor.row = .ok r ∧ s.edited r = .ok s' ∧ s'.Sound ∧
      s'.plain = s.plain := by
  obtain ⟨row, hrow⟩ : ∃ row, s.cursor.row = row + 1 := ⟨s.cursor.row - 1, by omega⟩
  obtain ⟨above, l, ha, hl, hjoined⟩ := h.exists_lines hrow
  have hlt : row ≤ s.buffer.count := Nat.le_of_lt (List.getElem?_eq_some_iff.mp ha).1
  obtain ⟨r, hr, hrep⟩ := Buffer.merge_spec (Nat.succ_pos row) ha hl hjoined
  obtain ⟨s', hs', hsound, hp⟩ := h.replaced_spec hrep hlt (Nat.le_refl 2) hjoined
  refine ⟨r, s', hrow ▸ hr, hs', hsound, ?_⟩
  have htake : (s.buffer.lines.take (row + 1)).flatten =
      (s.buffer.lines.take row).flatten ++ above := by
    rw [List.take_add_one, ha]
    simp
  rw [hp, plain, Buffer.flatten_of_lines ha hl, Buffer.offset, hrow, hcol, htake]
  simp

theorem Sound.moved_spec {s : Session} (h : s.Sound) {c : Cursor} {p : Nat}
    (hp : c.PointsAt s.buffer.lines p) :
    ∃ s', s.edited (s.buffer, c) = .ok s' ∧ s'.Sound ∧ s'.plain = ⟨s.buffer.flatten, p⟩ :=
  h.edited_spec hp h.newlineFree rfl (Nat.le_succ _)

theorem Sound.backspace_spec {s : Session} (h : s.Sound) :
    ∃ s', s.backspace = .ok s' ∧ s'.Sound ∧
      s'.plain = s.plain.apply (if 0 < s.cursor.col then .erase else .keep) := by
  unfold backspace
  split
  · next hcol =>
    obtain ⟨r, s', hr, hs', hsound, hp⟩ := h.delete_spec hcol
    exact ⟨s', by rw [hr]; exact hs', hsound, hp⟩
  · next hcol =>
    split
    · next hrow =>
      obtain ⟨r, s', hr, hs', hsound, hp⟩ := h.merge_spec (by omega) hrow
      exact ⟨s', by rw [hr]; exact hs', hsound, hp⟩
    · exact h.moved_spec h.pointsAt

theorem Sound.move_spec {s : Session} (h : s.Sound) (hm : s.mode = .editing) (d : Direction) :
    ∃ s', s.move d = .ok s' ∧ s'.Sound ∧ s'.plain = s.plain.apply (s.edit (.move d)) := by
  have lift : ∀ {c : Cursor} {p : Nat}, s.cursor.moved d s.buffer = .ok c →
      c.PointsAt s.buffer.lines p →
      ∃ s', s.move d = .ok s' ∧ s'.Sound ∧ s'.plain = ⟨s.buffer.flatten, p⟩ := by
    intro c p hc hp
    obtain ⟨s', hs', hsound, hplain⟩ := h.moved_spec hp
    exact ⟨s', by rw [move, hc]; exact hs', hsound, hplain⟩
  cases d with
  | left =>
    obtain ⟨c, hc, hp⟩ := Cursor.moved_left_spec h.row_lt h.col_le
    obtain ⟨s', hs', hsound, hplain⟩ := lift hc hp
    refine ⟨s', hs', hsound, ?_⟩
    rw [hplain, edit_of_editing hm, textEdit, moveEdit]
    split <;> rfl
  | right =>
    obtain ⟨c, hc, hp⟩ := Cursor.moved_right_spec h.row_lt h.col_le
    obtain ⟨s', hs', hsound, hplain⟩ := lift hc hp
    refine ⟨s', hs', hsound, ?_⟩
    rw [hplain, edit_of_editing hm, textEdit, moveEdit]
    split <;> rfl
  | up =>
    obtain ⟨c, hc, hp⟩ := Cursor.moved_spec h.row_lt h.col_le .up
    obtain ⟨s', hs', hsound, hplain⟩ := lift hc hp
    refine ⟨s', hs', hsound, ?_⟩
    simp only [hplain, edit_of_editing hm, textEdit, moveEdit, hc]
    rfl
  | down =>
    obtain ⟨c, hc, hp⟩ := Cursor.moved_spec h.row_lt h.col_le .down
    obtain ⟨s', hs', hsound, hplain⟩ := lift hc hp
    refine ⟨s', hs', hsound, ?_⟩
    simp only [hplain, edit_of_editing hm, textEdit, moveEdit, hc]
    rfl

theorem Sound.resize_spec {s : Session} (h : s.Sound) {g : Geometry}
    (hg : g.window.height ≤ Word.max16) :
    ∃ s', s.resize g = .ok s' ∧ s'.Sound ∧ s'.plain = s.plain := by
  have hmax : max g.visibleHeight 1 = g.visibleHeight := Nat.max_eq_left g.visibleHeight_pos
  obtain ⟨v, hv, hheight, hshows⟩ := s.viewport.resize_spec h.row_lt
    (hmax.symm ▸ Geometry.visibleHeight_le hg)
  rw [hmax] at hheight
  refine ⟨{ s with geometry := g, buffer := s.buffer.setMaxWidth g.maxWidth, viewport := v },
    ?_, ?_, rfl⟩
  · rw [resize, hv]
    rfl
  · exact ⟨h.row_lt, h.col_le, h.newlineFree, hshows, Nat.max_eq_left g.maxWidth_pos, hheight,
      hheight.symm ▸ Geometry.visibleHeight_le hg⟩

theorem Sound.of_mode {s : Session} (h : s.Sound) (m : Mode) : ({ s with mode := m } : Session).Sound :=
  ⟨h.row_lt, h.col_le, h.newlineFree, h.shows, h.width_eq, h.height_eq, h.height_le⟩

/-- What holds after a step of the text also holds after an action that only the text takes, if it
holds before where a button has the focus. -/
theorem onText_spec {s : Session} {next : Except Fault Session} {P : Session → Prop}
    (ht : s.mode = .editing → ∃ s', next = .ok s' ∧ P s') (hb : ∀ b, s.mode = .button b → P s) :
    ∃ s' e, apply.onText s next = .ok (s', e) ∧ P s' := by
  unfold apply.onText
  cases hm : s.mode with
  | editing =>
    obtain ⟨s', hs', hp⟩ := ht hm
    exact ⟨s', none, by rw [hs']; rfl, hp⟩
  | button b => exact ⟨s, none, rfl, hb b hm⟩

theorem Sound.onButtons_spec {s : Session} (h : s.Sound) (m : Mode) :
    ∃ s' e, apply.onButtons s { s with mode := m } = .ok (s', e) ∧ s'.Sound ∧
      s'.plain = s.plain := by
  unfold apply.onButtons
  cases s.mode with
  | editing => exact ⟨s, none, rfl, h, rfl⟩
  | button b => exact ⟨_, none, rfl, h.of_mode m, rfl⟩

/-- One action on a sound session: no fault, a sound session, and the text of the plain command. -/
theorem Sound.apply_spec {s : Session} (h : s.Sound) {a : Action} (ha : a ≠ .insert '\n') :
    ∃ s' e, s.apply a = .ok (s', e) ∧ s'.Sound ∧ s'.plain = s.plain.apply (s.edit a) := by
  have hkeep : ∀ b, s.mode = .button b → s.Sound ∧ s.plain = s.plain.apply (s.edit a) := by
    intro b hb
    rw [edit_of_button hb]
    exact ⟨h, rfl⟩
  cases a with
  | insert c =>
    refine onText_spec (fun hm => ?_) hkeep
    obtain ⟨r, s', hr, hs', hsound, hp⟩ := h.insert_spec (c := c) (by rintro rfl; exact ha rfl)
    exact ⟨s', by rw [hr]; exact hs', hsound, by rw [hp, edit_of_editing hm, textEdit]⟩
  | breakLine =>
    refine onText_spec (fun hm => ?_) hkeep
    obtain ⟨r, s', hr, hs', hsound, hp⟩ := h.split_spec
    exact ⟨s', by rw [hr]; exact hs', hsound, by rw [hp, edit_eq_keep rfl, PlainText.apply]⟩
  | backspace =>
    refine onText_spec (fun hm => ?_) hkeep
    obtain ⟨s', hs', hsound, hp⟩ := h.backspace_spec
    exact ⟨s', hs', hsound, by rw [hp, edit_of_editing hm, textEdit]⟩
  | move d => exact onText_spec (fun hm => h.move_spec hm d) hkeep
  | focusButtons =>
    refine onText_spec (fun hm => ⟨_, rfl, h.of_mode _, ?_⟩) hkeep
    rw [edit_eq_keep rfl, PlainText.apply]
    rfl
  | focusEditor =>
    obtain ⟨s', e, hs', hsound, hp⟩ := h.onButtons_spec .editing
    exact ⟨s', e, hs', hsound, by rw [hp, edit_eq_keep rfl, PlainText.apply]⟩
  | select b =>
    obtain ⟨s', e, hs', hsound, hp⟩ := h.onButtons_spec (.button b)
    exact ⟨s', e, hs', hsound, by rw [hp, edit_eq_keep rfl, PlainText.apply]⟩
  | confirm => exact ⟨s, _, rfl, h, by rw [edit_eq_keep rfl, PlainText.apply]⟩
  | cancel => exact ⟨s, _, rfl, h, by rw [edit_eq_keep rfl, PlainText.apply]⟩
  | resize w h' =>
    obtain ⟨s', hs', hsound, hp⟩ := h.resize_spec (Geometry.height_ofTerminal_le w h')
    refine ⟨s', none, ?_, hsound, by rw [hp, edit_eq_keep rfl, PlainText.apply]⟩
    rw [apply, hs']
    rfl

end Session

end StorageClient
