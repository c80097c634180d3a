import StorageClient.Proofs.Screen.Windows

/-!
What an editor draws outside its window. All of its parts are cut to the window but the first
button, which is as wide as the step to the second one. So in a window of fewer columns than its
label needs, the label ends right of the window, if the area goes on there.
-/

namespace StorageClient

namespace EditorView
open Text

variable {s : Session} {path : Text} {area w : Rect} {x y : Nat}

/-! ### The first button -/

theorem saveArea_inter (hcontains : area.Contains w) (harea : area.OnScreen) (hheight : 4 ≤ w.height) :
    (saveArea w).inter area =
      ⟨w.x + 2, w.y + w.height - 3, min buttonStep (area.x + area.width - (w.x + 2)), 1⟩ := by
  obtain ⟨hleft, hright, htop, hbottom⟩ := hcontains
  obtain ⟨haright, habottom⟩ := harea
  simp only [saveArea, Rect.inter, Rect.right, Rect.bottom, Word.satAdd16, Rect.mk.injEq]
  generalize Word.max16 = top at *
  omega

theorem save_plain (m : Mode) : (button m .save).text.length = 6 ∧
    ∀ d ∈ (button m .save).text, isControl d = false ∧ width d = 1 := by
  have hall : "[Save]".toList.all (fun d => decide (isControl d = false ∧ width d = 1)) = true := by
    decide
  exact ⟨rfl, fun d hd => of_decide_eq_true (List.all_eq_true.mp hall d hd)⟩

/-- The label takes the six columns from the third of the window on. -/
theorem mem_save (hcontains : area.Contains w) (harea : area.OnScreen) (hheight : 4 ≤ w.height)
    {m : Mode} {k : Stroke} (hk : k ∈ Draw.paragraph area (saveArea w) [button m .save]) :
    k.y = w.y + w.height - 3 ∧ w.x + 2 ≤ k.x ∧ k.x < w.x + 8 ∧ k.x < area.x + area.width := by
  obtain ⟨hsix, hplain⟩ := save_plain m
  have hcell := Draw.paragraph_covered k hk
  have hlabel := Draw.paragraph_singleton_lt (fun d hd => (hplain d hd).1) hk
  rw [columns_eq_length fun d hd => (hplain d hd).2, hsix] at hlabel
  rw [saveArea_inter hcontains harea hheight] at hcell hlabel
  simp only [Rect.Has] at hcell
  dsimp only at hlabel
  omega

theorem editsAt_save (hcontains : area.Contains w) (harea : area.OnScreen) (hheight : 4 ≤ w.height)
    (m : Mode) {k : Nat} (hk : k < 6) (hright : w.x + 2 + k < area.x + area.width) :
    ∃ c style, editsAt (w.x + 2 + k) (w.y + w.height - 3)
      (Draw.paragraph area (saveArea w) [button m .save]) = [.put [c] style] := by
  obtain ⟨hsix, hplain⟩ := save_plain m
  have hc : (button m .save).text[k]? = some _ := List.getElem?_eq_getElem (hsix ▸ hk)
  refine ⟨_, _, Draw.editsAt_label (saveArea_inter hcontains harea hheight) Nat.one_pos hplain hc ?_⟩
  dsimp only [buttonStep]
  omega

/-! ### Cells outside the window -/

section Outside
variable (hw : s.geometry.window.inter area = w) (hwidth : 4 ≤ w.width) (hheight : 4 ≤ w.height)
include hw hwidth hheight

/-- Outside the window nothing is drawn but the first button. -/
theorem editsAt_strokes_outside (houtside : ¬w.Has x y) (lines : List Draw.Line) :
    editsAt x y (strokes s path area lines) =
      editsAt x y (Draw.paragraph area (saveArea w) [button s.mode .save]) := by
  have htext : ∀ height ls, height ≤ w.height - 2 →
      w.Covers (Draw.paragraph area ⟨w.x + 2, w.y + 2, w.width - 2, height⟩ ls) := by
    intro height ls hle
    refine Draw.paragraph_within (fun x y h => ?_) ls
    simp only [Rect.Has] at h ⊢
    omega
  have hcancel : ∀ ls, w.Covers (Draw.paragraph area ⟨min (w.x + 2 + buttonStep)
      (w.x + w.width - 1), w.y + w.height - 3, w.width - (3 + buttonStep), 1⟩ ls) := by
    refine fun ls => Draw.paragraph_within (fun x y h => ?_) ls
    simp only [Rect.Has, buttonStep] at h ⊢
    omega
  have hhint : ∀ ls, w.Covers (Draw.paragraph area
      ⟨w.x + 2, w.y + w.height - 2, w.width - 3, 1⟩ ls) := by
    refine fun ls => Draw.paragraph_within (fun x y h => ?_) ls
    simp only [Rect.Has] at h ⊢
    omega
  unfold strokes footer
  simp only [hw, editsAt_append, (Draw.dialog_within area w _).editsAt_eq_nil houtside,
    (htext _ lines (Nat.min_le_right _ _)).editsAt_eq_nil houtside,
    (hcancel _).editsAt_eq_nil houtside, (hhint _).editsAt_eq_nil houtside, List.append_nil,
    List.nil_append]

variable (harea : area.OnScreen)
include harea

/-- What is changed outside the window is part of the first button's label. -/
theorem of_get_draw_ne {lines : List Draw.Line} {grid : Grid} (houtside : ¬w.Has x y)
    (hne : (grid.draw (strokes s path area lines)).get x y ≠ grid.get x y) :
    y = w.y + w.height - 3 ∧ w.x + w.width ≤ x ∧ x < w.x + 8 ∧ x < area.x + area.width := by
  have hcontains := Rect.contains_of_inter_eq hw hwidth hheight
  have hedits : editsAt x y (strokes s path area lines) = _ :=
    editsAt_strokes_outside hw hwidth hheight houtside lines
  obtain ⟨e, he⟩ := List.exists_mem_of_ne_nil _ fun hnil => hne (Grid.get_draw_of_editsAt hnil)
  rw [hedits] at he
  obtain ⟨hy, hfrom, hto, hend⟩ := mem_save hcontains harea hheight (mem_editsAt.mp he)
  simp only [Rect.Has] at houtside hy hfrom hto hend ⊢
  omega

/-- A narrow window does not keep the label inside, if the area goes on right of it. -/
theorem get_draw_blank_ne (hnarrow : w.width < 8) (hend : w.x + w.width < area.x + area.width)
    (lines : List Draw.Line) :
    ¬w.Has (w.x + w.width) (w.y + w.height - 3) ∧
      ((Grid.blank area).draw (strokes s path area lines)).get (w.x + w.width)
        (w.y + w.height - 3) ≠ {} := by
  have hcontains := Rect.contains_of_inter_eq hw hwidth hheight
  have houtside : ¬w.Has (w.x + w.width) (w.y + w.height - 3) := by
    simp only [Rect.Has]
    omega
  have hhas : area.Has (w.x + w.width) (w.y + w.height - 3) := by
    obtain ⟨hleft, hright, htop, hbottom⟩ := hcontains
    simp only [Rect.Has]
    omega
  have hcolumn : w.x + 2 + (w.width - 2) = w.x + w.width := by omega
  obtain ⟨c, style, hsave⟩ := editsAt_save hcontains harea hheight s.mode
    (show w.width - 2 < 6 by omega) (by omega)
  rw [hcolumn] at hsave
  have hedits : editsAt (w.x + w.width) (w.y + w.height - 3) (strokes s path area lines) =
      [] ++ [.put [c] style] :=
    (editsAt_strokes_outside hw hwidth hheight houtside lines).trans hsave
  refine ⟨houtside, fun hblank => ?_⟩
  have hsymbol := Grid.symbol_draw_of_editsAt (g := Grid.blank area) hhas hedits
  rw [hblank] at hsymbol
  cases hsymbol

end Outside

/-- An editor changes no cell outside its window but those of the first button's label in its row,
which ends eight columns from the window's left edge. So it changes none at all if and only if the
window is wide enough for that, or too small to be drawn, or the area ends with it. -/
theorem draw_overhang (s : Session) (path : Text) {area : Rect} (harea : area.OnScreen) :
    let w := s.geometry.window.inter area
    (s.Sound → w.x + 2 + buttonStep ≤ Word.max16 → Returns (draw s path area)) ∧
    ∀ strokes, draw s path area = .ok strokes →
      (∀ grid : Grid, grid.area = area → ∀ x y, ¬w.Has x y →
        (grid.draw strokes).get x y ≠ grid.get x y →
          y = w.y + w.height - 3 ∧ w.x + w.width ≤ x ∧ x < w.x + 8) ∧
      ((∀ grid : Grid, grid.area = area → ∀ x y, ¬w.Has x y →
        (grid.draw strokes).get x y = grid.get x y) ↔
          w.width < 4 ∨ w.height < 4 ∨ 8 ≤ w.width ∨ area.x + area.width ≤ w.x + w.width) := by
  intro w
  refine ⟨fun h hstep => draw_returns_of_step h hstep path, fun strokes hdraw => ?_⟩
  rcases eq_strokes_of_draw hdraw with ⟨hroom, rfl⟩ | ⟨hwidth, hheight, lines, -, rfl⟩
  · change w.width < 4 ∨ w.height < 4 at hroom
    refine ⟨fun grid _ x y _ hne => absurd rfl hne, fun _ => ?_, fun _ grid _ x y _ => rfl⟩
    omega
  · change 4 ≤ w.width at hwidth
    change 4 ≤ w.height at hheight
    refine ⟨fun grid _ x y houtside hne => ?_, fun hkept => ?_,
      fun hroom grid _ x y houtside => Decidable.byContradiction fun hne => ?_⟩
    · obtain ⟨hy, hfrom, hto, -⟩ := of_get_draw_ne rfl hwidth hheight harea houtside hne
      exact ⟨hy, hfrom, hto⟩
    · refine Decidable.byContradiction fun hroom => ?_
      -- The cell right of the window in the button's row is blank only before the window is drawn.
      have hnarrow : w.width < 8 ∧ w.x + w.width < area.x + area.width := by omega
      obtain ⟨houtside, hne⟩ :=
        get_draw_blank_ne rfl hwidth hheight harea hnarrow.1 hnarrow.2 lines
      exact hne ((hkept _ rfl _ _ houtside).trans (Grid.get_blank _ _ _))
    · have hcell := of_get_draw_ne rfl hwidth hheight harea houtside hne
      change y = w.y + w.height - 3 ∧ w.x + w.width ≤ x ∧ x < w.x + 8 ∧ _ at hcell
      omega

theorem draw_overhang_wide :
    let s := Session.start "abc".toList (.ofTerminal 80 24)
    let area := screenOf (80, 24)
    area.OnScreen ∧ ∃ strokes, draw s "/a".toList area = .ok strokes ∧
      ∀ grid : Grid, grid.area = area → ∀ x y, ¬(s.geometry.window.inter area).Has x y →
        (grid.draw strokes).get x y = grid.get x y := by
  intro s area
  have harea : area.OnScreen := ⟨by decide, by decide⟩
  obtain ⟨hreturns, hstays⟩ := draw_overhang s "/a".toList harea
  obtain ⟨strokes, hdraw⟩ := hreturns (Session.start_sound _ (by decide)) (by decide)
  exact ⟨harea, strokes, hdraw, (hstays strokes hdraw).2.mpr (by decide)⟩

/-- On a terminal of ten columns the last two characters of the label stand right of the window. -/
theorem draw_ten_columns :
    let s := Session.start [] (.ofTerminal 10 8)
    let area := screenOf (10, 8)
    ∃ strokes, draw s "/a".toList area = .ok strokes ∧
      ¬∀ grid : Grid, grid.area = area → ∀ x y, ¬(s.geometry.window.inter area).Has x y →
        (grid.draw strokes).get x y = grid.get x y := by
  intro s area
  have hsymbol : (draw s "/a".toList area).toOption.map
      (fun strokes => (((Grid.blank area).draw strokes).get 8 3).symbol) = some ['e'] := by
    decide +kernel
  cases hdraw : draw s "/a".toList area with
  | error fault =>
    rw [hdraw] at hsymbol
    cases hsymbol
  | ok strokes =>
    rw [hdraw] at hsymbol
    have he : (((Grid.blank area).draw strokes).get 8 3).symbol = ['e'] := Option.some.inj hsymbol
    refine ⟨strokes, rfl, fun hkept => ?_⟩
    rw [hkept _ rfl 8 3 (by decide), Grid.get_blank] at he
    cases he

end EditorView

end StorageClient
