import StorageClient.Proofs.Editor.LineWidth
import StorageClient.Proofs.Screen.Windows

/-!
The terminal cursor and the text under it. The cursor's column is the width of the characters before
it, whereas the frame draws a line cut and without its control characters; as long as the character
fits both come to the same cell.
-/

namespace StorageClient

/-- Every character of a line has columns of its own, apart from the control characters. -/
def Text.Separate (l : Text) : Prop := ∀ c ∈ l, isControl c = true ∨ 0 < width c

instance (l : Text) : Decidable l.Separate := List.decidableBAll _ l

namespace EditorView
open Text

variable {s : Session} {area : Rect} {l t u : Text} {c : Char}

/-- A cursor whose line is not cut before it stands as far to the right as that text is wide. -/
theorem cursor_eq (h : s.Sound) (hmode : s.mode = .editing) (hfit : s.geometry.FitsIn area)
    (hl : s.buffer.lines[s.cursor.row]? = some l)
    (hle : prefixWidth l s.cursor.col ≤ s.geometry.maxWidth) :
    cursor s area = .ok (some (s.geometry.window.x + 2 + prefixWidth l s.cursor.col,
      s.geometry.window.y + 2 + (s.cursor.row - s.viewport.scroll))) := by
  obtain ⟨hfrom, hto, -⟩ := h.shows
  rw [h.height_eq] at hto
  have hcolumns := hfit.maxWidth_le
  have hrows := hfit.visibleHeight_le
  have hinter := hfit.inter_eq
  obtain ⟨⟨hright, hbottom⟩, -, hwidth, hheight⟩ := hfit
  unfold cursor
  rw [hinter, if_neg (not_not.mpr hmode)]
  dsimp only
  generalize s.geometry.window = w at *
  -- The text lies in the window, so neither offset loses a bit and the edge stops nothing.
  have hoffset : Word.trunc16 (prefixWidth l s.cursor.col) = prefixWidth l s.cursor.col :=
    Nat.mod_eq_of_lt (by omega)
  have hrow : Word.trunc16 (s.cursor.row - s.viewport.scroll) = s.cursor.row - s.viewport.scroll :=
    Nat.mod_eq_of_lt (by omega)
  have hedge : Word.sub16 (w.x + w.width) 3 = .ok _ := Word.sub16_of_le (by omega)
  have hx : min (Word.satAdd16 (w.x + 2) (prefixWidth l s.cursor.col)) (w.x + w.width - 3) =
      w.x + 2 + prefixWidth l s.cursor.col := by
    simp only [Word.satAdd16]
    omega
  rw [if_neg (by omega), if_neg (by omega), hl]
  dsimp only [bind, Except.bind]
  rw [hoffset, hrow, Word.add16_of_le (by omega), Word.add16_of_le hright, Word.add16_of_le (by omega)]
  dsimp only
  rw [hedge, Word.add16_of_le (by omega)]
  dsimp only
  rw [hx]
  rfl

/-! ### The text area -/

theorem strokes_eq (hfit : s.geometry.FitsIn area) (path : Text) (lines : List Draw.Line) :
    strokes s path area lines = Draw.dialog area s.geometry.window (title path) ++
      Draw.paragraph area ⟨s.geometry.window.x + 2, s.geometry.window.y + 2,
        s.geometry.window.width - 2, s.geometry.visibleHeight⟩ lines ++
      footer s.mode area s.geometry.window := by
  have hrows := hfit.visibleHeight_le
  have hmin : min s.geometry.visibleHeight (s.geometry.window.height - 2) =
      s.geometry.visibleHeight := by omega
  unfold strokes
  rw [hfit.inter_eq]
  dsimp only
  rw [hmin]

theorem footer_below_text (hfit : s.geometry.FitsIn area) {i : Nat}
    (hi : i < s.geometry.visibleHeight) :
    ∀ k ∈ footer s.mode area s.geometry.window, s.geometry.window.y + 2 + i < k.y := by
  intro k hk
  have hbelow := footer_below hk
  have hrows := hfit.visibleHeight_le
  omega

theorem symbol_strokes (hfit : s.geometry.FitsIn area) {path : Text} {lines : List Draw.Line}
    {i : Nat} (hi : i < s.geometry.visibleHeight) {style : Style}
    (hl : lines[i]? = some ⟨t ++ c :: u, style⟩)
    (hvisible : ∀ d ∈ t ++ c :: u, isControl d = false) (hc : 0 < width c)
    (hle : columns t + columns (c :: u.takeWhile isMark) ≤ s.geometry.window.width - 2) :
    (((Grid.blank area).draw (strokes s path area lines)).get
      (s.geometry.window.x + 2 + columns t) (s.geometry.window.y + 2 + i)).symbol =
        c :: u.takeWhile isMark := by
  have hrows := hfit.visibleHeight_le
  have hheight : s.geometry.visibleHeight + 2 ≤ s.geometry.window.height := by omega
  rw [strokes_eq hfit]
  exact Grid.symbol_draw_paragraph rfl (hfit.text_contains hheight) (hfit.text_onScreen hheight)
    (footer_below_text hfit hi) hi hl hvisible hc hle

theorem get_strokes_end (hfit : s.geometry.FitsIn area) {path : Text} {lines : List Draw.Line}
    {i : Nat} (hi : i < s.geometry.visibleHeight) {style : Style}
    (hl : lines[i]? = some ⟨t, style⟩) (hvisible : ∀ d ∈ t, isControl d = false)
    (hle : columns t ≤ s.geometry.maxWidth) :
    ((Grid.blank area).draw (strokes s path area lines)).get
      (s.geometry.window.x + 2 + columns t) (s.geometry.window.y + 2 + i) = {} := by
  have hcolumns := hfit.maxWidth_le
  have hrows := hfit.visibleHeight_le
  have hheight : s.geometry.visibleHeight + 2 ≤ s.geometry.window.height := by omega
  rw [strokes_eq hfit]
  refine Grid.get_draw_paragraph_end (hfit.text_contains hheight) (hfit.text_onScreen hheight)
    (footer_below_text hfit hi) (by dsimp only; omega) hi hl hvisible (Nat.le_refl _)
    (Grid.get_blank _ _ _) fun e he => ?_
  refine Draw.editsAt_dialog ?_ he
  rw [hfit.inter_eq]
  simp only [Rect.Edge]
  omega

/-! ### The line of the cursor -/

theorem shown_cursor (h : s.Sound) (hl : s.buffer.lines[s.cursor.row]? = some l)
    {lines : List Draw.Line}
    (hlines : Reader.shown s.buffer.lines s.viewport s.geometry.maxWidth = .ok lines) :
    s.cursor.row - s.viewport.scroll < s.geometry.visibleHeight ∧
      lines[s.cursor.row - s.viewport.scroll]? = some ⟨clip l s.geometry.maxWidth, .plain⟩ := by
  obtain ⟨hfrom, hto, hscroll⟩ := h.shows
  obtain ⟨ls, hls, hrow⟩ := Reader.shown_spec ⟨hscroll, h.height_le⟩ s.geometry.maxWidth
  obtain rfl : ls = lines := Except.ok.inj (hls.symm.trans hlines)
  refine ⟨?_, hrow _ _ hl hfrom hto⟩
  rw [h.height_eq] at hto
  omega

theorem eq_strokes_of_fitsIn (hfit : s.geometry.FitsIn area) {path : Text} {ss : List Stroke}
    (h : draw s path area = .ok ss) :
    ∃ lines, Reader.shown s.buffer.lines s.viewport s.geometry.maxWidth = .ok lines ∧
      ss = strokes s path area lines := by
  have hwidth := hfit.width_ge
  have hheight := hfit.height_ge
  have hdraw := eq_strokes_of_draw h
  rw [hfit.inter_eq] at hdraw
  rcases hdraw with ⟨hroom, -⟩ | ⟨-, -, hlines⟩
  · omega
  · exact hlines

theorem width_pos_of_mem_clip (hl : l.Separate) {n : Nat} (hc : c ∈ clip l n) : 0 < width c := by
  have hvisible := isControl_of_mem_clip hc
  have hmem : c ∈ l := List.mem_of_mem_filter ((fit_prefix_self n _).subset hc)
  exact (hl c hmem).resolve_left (by simp [hvisible])

/-- Each character of the cursor's line that is drawn at all stands alone in its cell. -/
theorem symbol_draw_cursor_line (h : s.Sound) (hfit : s.geometry.FitsIn area)
    (hl : s.buffer.lines[s.cursor.row]? = some l) (hseparate : l.Separate) {path : Text}
    {ss : List Stroke} (hdraw : draw s path area = .ok ss)
    (hclip : clip l s.geometry.maxWidth = t ++ c :: u) :
    (((Grid.blank area).draw ss).get (s.geometry.window.x + 2 + totalWidth t)
      (s.geometry.window.y + 2 + (s.cursor.row - s.viewport.scroll))).symbol = [c] := by
  obtain ⟨lines, hlines, rfl⟩ := eq_strokes_of_fitsIn hfit hdraw
  obtain ⟨hrow, hline⟩ := shown_cursor h hl hlines
  have hpos : ∀ d ∈ t ++ c :: u, 0 < width d := hclip ▸ fun d => width_pos_of_mem_clip hseparate
  have hvisible : ∀ d ∈ t ++ c :: u, isControl d = false :=
    hclip ▸ fun d => isControl_of_mem_clip
  have hle : totalWidth t + width c ≤ s.geometry.maxWidth := by
    have hcut := totalWidth_fit_le s.geometry.maxWidth (l.filter fun c => !isControl c)
    rw [← clip, hclip, totalWidth_append, totalWidth_cons] at hcut
    omega
  have hmarks : u.takeWhile isMark = [] := takeWhile_isMark_eq_nil fun d hd => hpos d (by simp [hd])
  have hbefore : columns t = totalWidth t := columns_of_width_pos fun d hd => hpos d (by simp [hd])
  have halone : columns [c] = totalWidth [c] := columns_of_width_pos fun d hd => hpos d (by simp_all)
  have hcolumns := hfit.maxWidth_le
  rw [hclip] at hline
  rw [← hbefore, symbol_strokes hfit hrow hline hvisible (hpos c (by simp)) ?_, hmarks]
  rw [hmarks, halone, hbefore, totalWidth_cons, totalWidth]
  omega

theorem symbol_draw_cursor (h : s.Sound) (hfit : s.geometry.FitsIn area)
    (hl : s.buffer.lines[s.cursor.row]? = some l) (hseparate : l.Separate) {path : Text}
    {ss : List Stroke} (hdraw : draw s path area = .ok ss) (hc : l[s.cursor.col]? = some c)
    (hcontrol : isControl c = false)
    (hle : prefixWidth l s.cursor.col + width c ≤ s.geometry.maxWidth) :
    (((Grid.blank area).draw ss).get (s.geometry.window.x + 2 + prefixWidth l s.cursor.col)
      (s.geometry.window.y + 2 + (s.cursor.row - s.viewport.scroll))).symbol = [c] := by
  have hclip := clip_append_cons (u := l.drop (s.cursor.col + 1)) hcontrol hle
  rw [take_append_cons_drop hc] at hclip
  have hsymbol := symbol_draw_cursor_line h hfit hl hseparate hdraw hclip
  rwa [totalWidth_visible] at hsymbol

/-- Where a line that is not cut ends, the frame is blank. -/
theorem get_draw_cursor_end (h : s.Sound) (hfit : s.geometry.FitsIn area)
    (hl : s.buffer.lines[s.cursor.row]? = some l) (hseparate : l.Separate) {path : Text}
    {ss : List Stroke} (hdraw : draw s path area = .ok ss)
    (hle : totalWidth l ≤ s.geometry.maxWidth) :
    ((Grid.blank area).draw ss).get (s.geometry.window.x + 2 + totalWidth l)
      (s.geometry.window.y + 2 + (s.cursor.row - s.viewport.scroll)) = {} := by
  obtain ⟨lines, hlines, rfl⟩ := eq_strokes_of_fitsIn hfit hdraw
  obtain ⟨hrow, hline⟩ := shown_cursor h hl hlines
  have hcolumns : columns (clip l s.geometry.maxWidth) = totalWidth (clip l s.geometry.maxWidth) :=
    columns_of_width_pos fun d => width_pos_of_mem_clip hseparate
  rw [← totalWidth_visible l, ← clip_of_le hle, ← hcolumns]
  exact get_strokes_end hfit hrow hline (fun d => isControl_of_mem_clip)
    (hcolumns ▸ totalWidth_fit_le _ _)

/-- While a text is edited the cursor stands on its character: if the character under it is shown
at all, that is what stands in the cursor's cell, and at the end of a line that fits the cursor
stands in the blank cell right behind what is shown of it. This holds at every moment of a course of
changes, however the window lies in the area. -/
theorem course_start_cursor (content : Text) {g : Geometry} (hg : g.window.height ≤ Word.max16)
    {cs : List Session.Change} (hcs : ∀ c ∈ cs, c.Possible) :
    ∃ ss, (Session.start content g).course cs = .ok ss ∧
      ∀ s ∈ ss, s.mode = .editing → ∀ path area, s.geometry.FitsIn area →
        let w := s.geometry.window
        let n := s.geometry.maxWidth
        (w.x + 2 + buttonStep ≤ Word.max16 → Returns (draw s path area)) ∧
        ∃ l, s.buffer.lines[s.cursor.row]? = some l ∧
          ∀ strokes, draw s path area = .ok strokes → l.Separate →
            let frame := (Grid.blank area).draw strokes
            (∀ c, l[s.cursor.col]? = some c → isControl c = false →
              prefixWidth l s.cursor.col + width c ≤ n →
              ∃ x y, cursor s area = .ok (some (x, y)) ∧ (frame.get x y).symbol = [c]) ∧
            (s.cursor.col = l.length → totalWidth l ≤ n →
              ∃ x y, cursor s area = .ok (some (x, y)) ∧ frame.get x y = {} ∧
                x = w.x + 2 + totalWidth (clip l n) ∧
                ∀ t c u, clip l n = t ++ c :: u →
                  (frame.get (w.x + 2 + totalWidth t) y).symbol = [c]) := by
  obtain ⟨ss, hss, hsound⟩ := Session.course_start_sound content hg hcs
  refine ⟨ss, hss, fun s hs hmode path area hfit => ⟨fun hstep => ?_, ?_⟩⟩
  · exact draw_returns_of_step (hsound s hs) (by rwa [hfit.inter_eq]) path
  · have h := hsound s hs
    obtain ⟨l, hl, hcol⟩ := h.exists_line
    refine ⟨l, hl, fun strokes hdraw hseparate => ⟨fun c hc hcontrol hle => ?_, fun hend hle => ?_⟩⟩
    · exact ⟨_, _, cursor_eq h hmode hfit hl (by omega),
        symbol_draw_cursor h hfit hl hseparate hdraw hc hcontrol hle⟩
    · have hall : prefixWidth l s.cursor.col = totalWidth l := by
        rw [prefixWidth, hend, List.take_length]
      refine ⟨_, _, cursor_eq h hmode hfit hl (by omega), ?_, ?_, fun t c u hclip => ?_⟩
      · rw [hall]
        exact get_draw_cursor_end h hfit hl hseparate hdraw hle
      · rw [hall, clip_of_le hle, totalWidth_visible]
      · exact symbol_draw_cursor_line h hfit hl hseparate hdraw hclip

def mixed : Text := "a\t世b".toList

def onWide : Session := { Session.start mixed (.ofTerminal 20 12) with cursor := ⟨0, 2⟩ }

theorem course_start_cursor_onWide :
    let g := Geometry.ofTerminal 20 12
    let cs : List Session.Change := [.input (.action (.move .right)), .input (.action (.move .right))]
    g.window.height ≤ Word.max16 ∧ (∀ c ∈ cs, c.Possible) ∧
      (∃ ss, (Session.start mixed g).course cs = .ok ss ∧ onWide ∈ ss) ∧
      ∃ strokes x y, draw onWide "/a".toList (screenOf (20, 12)) = .ok strokes ∧
        cursor onWide (screenOf (20, 12)) = .ok (some (x, y)) ∧
        (((Grid.blank (screenOf (20, 12))).draw strokes).get x y).symbol = ['世'] := by
  intro g cs
  have hg : g.window.height ≤ Word.max16 := by decide
  have hcs : ∀ c ∈ cs, c.Possible := by decide
  obtain ⟨ss, hss, hcursor⟩ := course_start_cursor mixed hg hcs
  have hmem : onWide ∈ ss := by
    have hcourse : (Session.start mixed g).course cs =
        .ok [Session.start mixed g,
          { Session.start mixed g with cursor := ⟨0, 1⟩ }, onWide] := by decide +kernel
    rw [Except.ok.inj (hss.symm.trans hcourse)]
    simp
  have hfit : onWide.geometry.FitsIn (screenOf (20, 12)) :=
    ⟨⟨by decide, by decide⟩, ⟨by decide, by decide, by decide, by decide⟩, by decide, by decide⟩
  obtain ⟨hreturns, l, hl, hframe⟩ := hcursor onWide hmem rfl "/a".toList _ hfit
  obtain ⟨strokes, hdraw⟩ := hreturns (by decide)
  have hline : onWide.buffer.lines[onWide.cursor.row]? = some mixed := by decide +kernel
  obtain rfl : mixed = l := Option.some.inj (hline.symm.trans hl)
  have hseparate : Text.Separate mixed := by decide +kernel
  obtain ⟨x, y, hxy, hsymbol⟩ := (hframe strokes hdraw hseparate).1 '世' rfl (by decide)
    (by decide +kernel)
  exact ⟨hg, hcs, ⟨ss, hss, hmem⟩, strokes, x, y, hdraw, hxy, hsymbol⟩

end EditorView

end StorageClient
