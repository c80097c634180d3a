import StorageClient.Proofs.Screen.Scrolling
import StorageClient.Proofs.Screen.Windows
import StorageClient.Screen.MessageBox

/-!
Boxes and windows with a text that someone else has written. Whatever its characters and however
many its lines, it changes nothing outside the frame and nothing of the frame, and in a message box
it never reaches the row below it that says how to go on.
-/

namespace StorageClient
open Text

variable {area r : Rect} {x y : Nat}

/-! ### Rectangles -/

/-- A rectangle in the middle of an area. What the area leaves on one side of it and on the other
differs by a cell at most. -/
structure Rect.Centers (area r : Rect) : Prop extends area.Contains r where
  columns_le : 2 * r.x + r.width ≤ 2 * area.x + area.width
  le_columns : 2 * area.x + area.width ≤ 2 * r.x + r.width + 1
  rows_le : 2 * r.y + r.height ≤ 2 * area.y + area.height
  le_rows : 2 * area.y + area.height ≤ 2 * r.y + r.height + 1

theorem Rect.centers_of_centered (harea : area.OnScreen) {width height : Nat}
    (h : area.centered width height = .ok r) : area.Centers r := by
  rw [centered_eq harea] at h
  cases h
  refine ⟨⟨?_, ?_, ?_, ?_⟩, ?_, ?_, ?_, ?_⟩ <;> dsimp only <;> omega

def Rect.inset (r : Rect) (n : Nat) : Rect :=
  ⟨r.x + n, r.y + n, r.width - 2 * n, r.height - 2 * n⟩

/-! ### Frames -/

namespace Draw

def frameSymbols : List Char := ['│', '─', '┘', '┐', '└', '┌']

theorem edit_of_mem_borders {s : Stroke} (h : s ∈ borders r) :
    ∃ c ∈ frameSymbols, s.edit = .put [c] .plain := by
  simp only [borders, List.mem_append, List.mem_map, List.mem_cons, List.not_mem_nil, or_false] at h
  rcases h with ((((⟨z, hz, rfl⟩ | ⟨z, hz, rfl⟩) | ⟨z, hz, rfl⟩) | ⟨z, hz, rfl⟩) |
    rfl | rfl | rfl | rfl) <;>
  exact ⟨_, by decide, rfl⟩

theorem exists_mem_borders (hscreen : r.OnScreen) (h : r.Edge x y) :
    ∃ e, (⟨x, y, e⟩ : Stroke) ∈ borders r := by
  obtain ⟨⟨hleft, hright, htop, hbottom⟩, hside⟩ := h
  have hr : r.right = r.x + r.width := Nat.min_eq_left hscreen.right_le
  have hb : r.bottom = r.y + r.height := Nat.min_eq_left hscreen.bottom_le
  have hx : x ∈ r.columns := Rect.mem_columns.mpr ⟨hleft, hright⟩
  have hy : y ∈ r.rows := Rect.mem_rows.mpr ⟨htop, hbottom⟩
  simp only [borders, List.mem_append, List.mem_map, hr, hb]
  rcases hside with rfl | hx' | rfl | hy'
  · exact ⟨_, .inl (.inl (.inl (.inl ⟨y, hy, rfl⟩)))⟩
  · obtain rfl : x = r.x + r.width - 1 := by omega
    exact ⟨_, .inl (.inl (.inr ⟨y, hy, rfl⟩))⟩
  · exact ⟨_, .inl (.inl (.inl (.inr ⟨x, hx, rfl⟩)))⟩
  · obtain rfl : y = r.y + r.height - 1 := by omega
    exact ⟨_, .inl (.inr ⟨x, hx, rfl⟩)⟩

/-- Beside a frame's top edge its title is not drawn, so its border stays. -/
theorem editsAt_block_side {t : Text} (hr : r.inter area = r) (hscreen : r.OnScreen)
    (hedge : r.Edge x y) (hside : x = r.x ∨ x + 1 = r.x + r.width ∨ y ≠ r.y) :
    ∃ es, ∃ c ∈ frameSymbols, editsAt x y (block area r t) = es ++ [.put [c] .plain] := by
  have hempty : r.isEmpty = false := by
    obtain ⟨⟨hleft, hright, htop, hbottom⟩, -⟩ := hedge
    simp only [Rect.isEmpty, Bool.or_eq_false_iff, beq_eq_false_iff_ne]
    omega
  have htitle : editsAt x y (title (r.x + 1) r.y (r.width - 2) (titleText t)) = [] := by
    refine editsAt_eq_nil fun s hs hxy => ?_
    have hwithin := title_within hs
    omega
  have hborders : editsAt x y (borders r) ≠ [] := by
    obtain ⟨e, he⟩ := exists_mem_borders hscreen hedge
    exact List.ne_nil_of_mem (mem_editsAt.mpr he)
  obtain ⟨es, e, hes⟩ := (List.eq_nil_or_concat _).resolve_left hborders
  have he : (⟨x, y, e⟩ : Stroke) ∈ borders r := by
    rw [← mem_editsAt, hes]
    simp
  obtain ⟨c, hc, rfl⟩ := edit_of_mem_borders he
  refine ⟨es, c, hc, ?_⟩
  simp only [block, hr, hempty, Bool.false_eq_true, if_false]
  rw [editsAt_append, htitle, List.append_nil, hes, List.concat_eq_append]

theorem symbol_draw_side {t : Text} {rest : List Stroke} {grid : Grid} (hgrid : grid.area = area)
    (hcontains : area.Contains r) (hscreen : r.OnScreen) (hedge : r.Edge x y)
    (hside : x = r.x ∨ x + 1 = r.x + r.width ∨ y ≠ r.y) (hrest : editsAt x y rest = []) :
    ∃ c ∈ frameSymbols, ((grid.draw (dialog area r t ++ rest)).get x y).symbol = [c] := by
  obtain ⟨es, c, hc, hes⟩ :=
    editsAt_block_side (t := t) (hcontains.inter_eq hscreen) hscreen hedge hside
  have hedits : editsAt x y (dialog area r t ++ rest) =
      (editsAt x y (clear area r) ++ es) ++ [.put [c] .plain] := by
    rw [editsAt_append, hrest, List.append_nil, dialog, editsAt_append, hes, List.append_assoc]
  exact ⟨c, hc, Grid.symbol_draw_of_editsAt (hgrid ▸ hcontains.has hedge.1) hedits⟩

end Draw

/-! ### Message boxes -/

namespace MessageBox

def textArea (r : Rect) : Rect :=
  ⟨Word.satAdd16 r.x 2, Word.satAdd16 r.y 2, r.width - 4, r.height - 4⟩

def closingArea (r : Rect) : Rect := ⟨Word.satAdd16 r.x 2, r.y + r.height - 2, r.width - 4, 1⟩

def closing (area r : Rect) : List Stroke :=
  if r.height < 3 then [] else Draw.paragraph area (closingArea r) [⟨footer, .info⟩]

def text (body : Text) (area r : Rect) : List Stroke :=
  Draw.paragraph area (textArea r)
    (((lines body).take (r.height - 4)).map fun l => ⟨clip l (r.width - 4), .plain⟩)

def strokes (title body : Text) (area r : Rect) : List Stroke :=
  Draw.dialog area r title ++ (text body area r ++ closing area r)

theorem draw_eq (hr : frame area = .ok r) (hscreen : r.OnScreen) (title body : Text) :
    draw title body area = .ok (strokes title body area r) := by
  have hbottom := hscreen.bottom_le
  unfold draw strokes closing closingArea
  rw [hr]
  dsimp only [bind, Except.bind]
  split
  · simp [text, textArea, pure, Except.pure]
  · rw [Word.add16_of_le hbottom]
    dsimp only
    rw [Word.sub16_of_le (by omega)]
    simp [text, textArea, pure, Except.pure]

theorem has_of_has_textArea (hscreen : r.OnScreen) (h : (textArea r).Has x y) :
    (r.inset 2).Has x y := by
  obtain ⟨hright, hbottom⟩ := hscreen
  simp only [textArea, Rect.inset, Rect.Has, Word.satAdd16] at h ⊢
  omega

theorem text_within (hscreen : r.OnScreen) (body : Text) :
    (r.inset 2).Covers (text body area r) :=
  Draw.paragraph_within (fun _ _ => has_of_has_textArea hscreen) _

theorem closing_within (hscreen : r.OnScreen) : (r.inset 1).Covers (closing area r) := by
  obtain ⟨hright, hbottom⟩ := hscreen
  unfold closing
  split
  · nofun
  · refine Draw.paragraph_within (fun x y h => ?_) _
    simp only [closingArea, Rect.inset, Rect.Has, Word.satAdd16] at h ⊢
    omega

theorem closingArea_inter (hcontains : area.Contains r) (hscreen : r.OnScreen)
    (hwidth : 4 < r.width) (hheight : 2 ≤ r.height) :
    (closingArea r).inter area = ⟨r.x + 2, r.y + r.height - 2, r.width - 4, 1⟩ := by
  obtain ⟨hleft, hright, htop, hbottom⟩ := hcontains
  obtain ⟨hsright, hsbottom⟩ := hscreen
  have hx : Word.satAdd16 r.x 2 = r.x + 2 := Nat.min_eq_left (by omega)
  rw [closingArea, hx]
  refine Rect.Contains.inter_eq ⟨?_, ?_, ?_, ?_⟩ ⟨?_, ?_⟩ <;> dsimp only <;> omega

theorem footer_plain : ∀ c ∈ footer, isControl c = false ∧ width c = 1 := by
  have hall : footer.all (fun c => decide (isControl c = false ∧ width c = 1)) = true := by decide
  exact fun c hc => of_decide_eq_true (List.all_eq_true.mp hall c hc)

theorem editsAt_closing (hcontains : area.Contains r) (hscreen : r.OnScreen) (hheight : 3 ≤ r.height)
    {k : Nat} {c : Char} (hc : footer[k]? = some c) (hk : k + 4 < r.width) :
    editsAt (r.x + 2 + k) (r.y + r.height - 2) (closing area r) = [.put [c] .info] := by
  rw [closing, if_neg (by omega)]
  refine Draw.editsAt_label (closingArea_inter hcontains hscreen (by omega) (by omega)) Nat.one_pos
    footer_plain hc ?_
  dsimp only
  omega

variable {grid : Grid} (title body : Text)

theorem strokes_within (hscreen : r.OnScreen) : r.Covers (strokes title body area r) := by
  have hinset : ∀ n x y, (r.inset n).Has x y → r.Has x y := by
    intro n x y h
    simp only [Rect.inset, Rect.Has] at h ⊢
    omega
  exact (Draw.dialog_within area r title).append
    (((text_within hscreen body).mono (hinset 2)).append ((closing_within hscreen).mono (hinset 1)))

theorem symbol_draw_side (hgrid : grid.area = area) (hcontains : area.Contains r)
    (hscreen : r.OnScreen) (hheight : 2 ≤ r.height) (hxy : r.Has x y)
    (hside : x = r.x ∨ x + 1 = r.x + r.width ∨ y + 1 = r.y + r.height) :
    ∃ c ∈ Draw.frameSymbols, ((grid.draw (strokes title body area r)).get x y).symbol = [c] := by
  have hinset : ∀ n, 0 < n → ¬(r.inset n).Has x y := by
    intro n hn h
    simp only [Rect.inset, Rect.Has] at h
    omega
  have hrest : editsAt x y (text body area r ++ closing area r) = [] := by
    rw [editsAt_append, (text_within hscreen body).editsAt_eq_nil (hinset 2 Nat.two_pos),
      (closing_within hscreen).editsAt_eq_nil (hinset 1 Nat.one_pos), List.append_nil]
  exact Draw.symbol_draw_side hgrid hcontains hscreen ⟨hxy, by omega⟩ (by omega) hrest

theorem get_draw_outside (hscreen : r.OnScreen) (body' : Text) (hxy : ¬(r.inset 2).Has x y) :
    (grid.draw (strokes title body' area r)).get x y =
      (grid.draw (strokes title body area r)).get x y := by
  refine Grid.get_draw_congr ?_
  simp only [strokes, editsAt_append, (text_within hscreen _).editsAt_eq_nil hxy]

/-- As much of the last line as there is room for can be read, whatever the body. -/
theorem symbol_draw_closing (hgrid : grid.area = area) (hcontains : area.Contains r)
    (hscreen : r.OnScreen) (hheight : 3 ≤ r.height) {k : Nat} {c : Char}
    (hc : footer[k]? = some c) (hk : k + 4 < r.width) :
    ((grid.draw (strokes title body area r)).get (r.x + 2 + k) (r.y + r.height - 2)).symbol =
      [c] := by
  have hhas : r.Has (r.x + 2 + k) (r.y + r.height - 2) := by
    simp only [Rect.Has]
    omega
  have hedits : editsAt (r.x + 2 + k) (r.y + r.height - 2) (strokes title body area r) =
      (editsAt (r.x + 2 + k) (r.y + r.height - 2) (Draw.dialog area r title) ++
        editsAt (r.x + 2 + k) (r.y + r.height - 2) (text body area r)) ++ [.put [c] .info] := by
    rw [strokes, editsAt_append, editsAt_append, editsAt_closing hcontains hscreen hheight hc hk,
      List.append_assoc]
  exact Grid.symbol_draw_of_editsAt (hgrid ▸ hcontains.has hhas) hedits

end MessageBox

/-! ### Readers -/

namespace Reader

theorem strokes_within {v : Reader} (hwidth : 4 ≤ (v.geometry.window.inter area).width)
    (hheight : 4 ≤ (v.geometry.window.inter area).height) (path : Text) (lines : List Draw.Line) :
    (v.geometry.window.inter area).Covers (v.strokes path area lines) := by
  have hpart : ∀ {p : Rect} (ls : List Draw.Line),
      (∀ x y, p.Has x y → (v.geometry.window.inter area).Has x y) →
        (v.geometry.window.inter area).Covers (Draw.paragraph area p ls) :=
    fun ls h => Draw.paragraph_within h ls
  unfold strokes footer
  refine ((Draw.dialog_within area _ _).append (hpart lines ?_)).append
    ((hpart _ ?_).append (hpart _ ?_)) <;>
  · intro x y h
    simp only [Rect.Has] at h ⊢
    omega

theorem get_draw_outside {v : Reader} {path : Text} {ss : List Stroke} (h : v.draw path area = .ok ss)
    (grid : Grid) (hxy : ¬(v.geometry.window.inter area).Has x y) :
    (grid.draw ss).get x y = grid.get x y := by
  by_cases hroom : (v.geometry.window.inter area).width < 4 ∨
      (v.geometry.window.inter area).height < 4
  · rw [draw, if_pos hroom] at h
    cases h
    rfl
  · rw [draw_eq (by omega) (by omega)] at h
    obtain ⟨lines, -, h⟩ := eq_ok_of_bind h
    cases h
    exact Grid.get_draw_of_editsAt
      ((strokes_within (by omega) (by omega) path lines).editsAt_eq_nil hxy)

/-- A view of a text can be drawn on any part of a screen. -/
theorem Displays.draw_returns {v : Reader} {sent : Text} (h : v.Displays sent)
    (hheight : v.geometry.window.height ≤ Word.max16) (path : Text) (area : Rect) :
    Returns (v.draw path area) := by
  by_cases hroom : (v.geometry.window.inter area).width < 4 ∨
      (v.geometry.window.inter area).height < 4
  · rw [draw, if_pos hroom]
    exact .pure _
  · rw [draw_eq (by omega) (by omega)]
    exact .bind_of (shown_returns (h.inRange hheight) _) fun _ => .pure _

end Reader

/-- On any area a message box is drawn in the middle and nothing is changed around it. Its border
stays whole beside the title, its body stays two cells away from all edges, and the row that says how
to go on is as if there were no body. A reader, in whatever state, changes nothing outside the part
of its window that the area shows, and a view of a text can always be drawn. -/
theorem box_and_reader_confined {area : Rect} (harea : area.OnScreen) :
    (∀ title body : Text, ∃ r strokes, MessageBox.frame area = .ok r ∧ area.Centers r ∧
      MessageBox.draw title body area = .ok strokes ∧ ∀ grid : Grid, grid.area = area →
        (∀ x y, ¬r.Has x y → (grid.draw strokes).get x y = grid.get x y) ∧
        (4 ≤ r.width → 4 ≤ r.height →
          (∀ x y, r.Has x y → (x = r.x ∨ x + 1 = r.x + r.width ∨ y + 1 = r.y + r.height) →
            ∃ c ∈ Draw.frameSymbols, ((grid.draw strokes).get x y).symbol = [c]) ∧
          (∀ body' strokes', MessageBox.draw title body' area = .ok strokes' →
            ∀ x y, ¬(r.inset 2).Has x y →
              (grid.draw strokes').get x y = (grid.draw strokes).get x y) ∧
          (∀ x, ¬(r.inset 2).Has x (r.y + r.height - 2)) ∧
          ∀ k c, MessageBox.footer[k]? = some c → k + 4 < r.width →
            ((grid.draw strokes).get (r.x + 2 + k) (r.y + r.height - 2)).symbol = [c])) ∧
    ∀ path : Text,
      (∀ sent g es, g.window.height ≤ Word.max16 →
        Returns (((Reader.start sent g).run es).draw path area)) ∧
      ∀ (v : Reader) strokes, v.draw path area = .ok strokes →
        ∀ (grid : Grid) (x y : Nat), ¬(v.geometry.window.inter area).Has x y →
          (grid.draw strokes).get x y = grid.get x y := by
  refine ⟨fun title body => ?_, fun path => ⟨fun sent g es hg => ?_,
    fun v strokes hdraw grid x y => Reader.get_draw_outside hdraw grid⟩⟩
  · obtain ⟨r, hr, hscreen⟩ := MessageBox.frame_spec harea
    have hcenters : area.Centers r := Rect.centers_of_centered harea hr
    have hcontains := hcenters.toContains
    refine ⟨r, _, hr, hcenters, MessageBox.draw_eq hr hscreen title body, fun grid hgrid =>
      ⟨fun x y hxy => ?_, fun hwidth hheight => ⟨fun x y hxy hside => ?_,
        fun body' strokes' hdraw x y hxy => ?_, fun x hx => ?_, fun k c hc hk => ?_⟩⟩⟩
    · exact Grid.get_draw_of_editsAt
        ((MessageBox.strokes_within title body hscreen).editsAt_eq_nil hxy)
    · exact MessageBox.symbol_draw_side title body hgrid hcontains hscreen (by omega) hxy hside
    · rw [MessageBox.draw_eq hr hscreen] at hdraw
      obtain rfl := Except.ok.inj hdraw
      exact MessageBox.get_draw_outside title body hscreen body' hxy
    · simp only [Rect.inset, Rect.Has] at hx
      omega
    · exact MessageBox.symbol_draw_closing title body hgrid hcontains hscreen (by omega) hc hk
  · obtain ⟨hv, hgeometry⟩ := (Reader.displays_start sent g).run es
    exact hv.draw_returns (hgeometry ▸ height_after_le hg es) path area

/-- A body of wide characters on the last cells that have coordinates. -/
theorem box_and_reader_confined_corner :
    let area : Rect := ⟨65475, 65523, 60, 12⟩
    let body : Text := List.replicate 60 '界' ++ "\\n\n\n\n\n\nb".toList
    area.OnScreen ∧ ∃ strokes, MessageBox.draw "a\u0301".toList body area = .ok strokes ∧
      ∀ grid : Grid, grid.area = area →
        (grid.draw strokes).get 65532 65527 = grid.get 65532 65527 ∧
        (∃ c ∈ Draw.frameSymbols, ((grid.draw strokes).get 65531 65527).symbol = [c]) ∧
        ((grid.draw strokes).get 65480 65531).symbol = ['P'] := by
  intro area body
  have harea : area.OnScreen := ⟨by decide, by decide⟩
  obtain ⟨r, strokes, hr, -, hdraw, hkept⟩ :=
    (box_and_reader_confined harea).1 "a\u0301".toList body
  have hframe : MessageBox.frame area = .ok ⟨65478, 65525, 54, 8⟩ :=
    (Rect.centered_eq harea _ _).trans (congrArg Except.ok (by decide))
  obtain rfl := Except.ok.inj (hr.symm.trans hframe)
  refine ⟨harea, strokes, hdraw, fun grid hgrid => ?_⟩
  obtain ⟨houtside, hinside⟩ := hkept grid hgrid
  obtain ⟨hside, -, -, hclosing⟩ := hinside (by decide) (by decide)
  exact ⟨houtside _ _ (by decide), hside _ _ (by decide) (by decide), hclosing 0 'P' rfl (by decide)⟩

end StorageClient
