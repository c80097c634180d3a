import StorageClient.Proofs.Text.Clusters
import StorageClient.Screen.Draw

/-!
What strokes do to a grid, cell by cell. A cell undergoes the edits of the strokes that are made at
it and no others. So what a widget changes, and what stands in a cell behind it, are both read off
its strokes; here for the parts that widgets are made of.
-/

namespace StorageClient

def editsAt (x y : Nat) (ss : List Stroke) : List Edit :=
  (ss.filter fun s => s.x = x ∧ s.y = y).map Stroke.edit

variable {x y : Nat} {ss ts : List Stroke}

theorem editsAt_append : editsAt x y (ss ++ ts) = editsAt x y ss ++ editsAt x y ts := by
  simp [editsAt]

theorem editsAt_cons (e : Edit) : editsAt x y (⟨x, y, e⟩ :: ss) = e :: editsAt x y ss := by
  simp [editsAt]

theorem mem_editsAt {e : Edit} : e ∈ editsAt x y ss ↔ ⟨x, y, e⟩ ∈ ss := by
  simp only [editsAt, List.mem_map, List.mem_filter, decide_eq_true_eq]
  constructor
  · rintro ⟨s, ⟨hs, rfl, rfl⟩, rfl⟩
    exact hs
  · exact fun h => ⟨_, ⟨h, rfl, rfl⟩, rfl⟩

theorem editsAt_eq_nil (h : ∀ s ∈ ss, ¬(s.x = x ∧ s.y = y)) : editsAt x y ss = [] := by
  refine List.eq_nil_iff_forall_not_mem.mpr fun e he => ?_
  exact h _ (mem_editsAt.mp he) ⟨rfl, rfl⟩

def Edit.text : Edit → Text
  | .clear => []
  | .put t _ => t
  | .append t _ => t

namespace Grid

variable {g : Grid}

@[simp] theorem area_draw (g : Grid) (ss : List Stroke) : (g.draw ss).area = g.area := by
  unfold draw
  induction ss generalizing g with
  | nil => rfl
  | cons s ss ih => rw [List.foldl_cons, ih, area_stroke]

theorem get_draw (h : g.area.Has x y) (ss : List Stroke) :
    (g.draw ss).get x y = (editsAt x y ss).foldl (fun c e => e.apply c) (g.get x y) := by
  unfold draw
  induction ss generalizing g with
  | nil => rfl
  | cons s ss ih =>
    have hs : (g.stroke s).area.Has x y := by rwa [area_stroke]
    rw [List.foldl_cons, ih hs, get_stroke h]
    by_cases hat : s.x = x ∧ s.y = y <;> simp [editsAt, hat]

theorem get_of_not_has (h : ¬g.area.Has x y) : g.get x y = {} := if_neg h

theorem get_draw_congr (h : editsAt x y ss = editsAt x y ts) :
    (g.draw ss).get x y = (g.draw ts).get x y := by
  by_cases hhas : g.area.Has x y
  · rw [get_draw hhas, get_draw hhas, h]
  · rw [get_of_not_has (by rwa [area_draw]), get_of_not_has (by rwa [area_draw])]

theorem get_draw_of_editsAt (h : editsAt x y ss = []) : (g.draw ss).get x y = g.get x y :=
  get_draw_congr (show editsAt x y ss = editsAt x y [] from h)

theorem symbol_draw_of_editsAt (hhas : g.area.Has x y) {es : List Edit} {t : Text} {style : Style}
    (h : editsAt x y ss = es ++ [.put t style]) : ((g.draw ss).get x y).symbol = t := by
  rw [get_draw hhas, h, List.foldl_append]
  rfl

theorem get_blank (area : Rect) (x y : Nat) : (blank area).get x y = {} := by
  unfold get
  split
  · simp only [blank, Array.getD_eq_getD_getElem?, Array.getElem?_replicate]
    split <;> rfl
  · rfl

theorem get_draw_of_clear (hempty : g.get x y = {}) (h : ∀ e ∈ editsAt x y ss, e = .clear) :
    (g.draw ss).get x y = {} := by
  by_cases hhas : g.area.Has x y
  · rw [get_draw hhas, hempty]
    generalize editsAt x y ss = es at h
    induction es with
    | nil => rfl
    | cons e es ih =>
      obtain ⟨rfl, hes⟩ := List.forall_mem_cons.mp h
      exact ih hes
  · exact get_of_not_has (by rwa [area_draw])

end Grid

/-! ### Rectangles -/

namespace Rect

variable {r s : Rect}

theorem mem_columns : x ∈ r.columns ↔ r.x ≤ x ∧ x < r.x + r.width := by
  simp only [columns, List.mem_map, List.mem_range]
  constructor
  · rintro ⟨i, hi, rfl⟩
    omega
  · exact fun h => ⟨x - r.x, by omega, by omega⟩

theorem mem_rows : y ∈ r.rows ↔ r.y ≤ y ∧ y < r.y + r.height := by
  simp only [rows, List.mem_map, List.mem_range]
  constructor
  · rintro ⟨i, hi, rfl⟩
    omega
  · exact fun h => ⟨y - r.y, by omega, by omega⟩

theorem isEmpty_eq_false (h : r.isEmpty = false) : 0 < r.width ∧ 0 < r.height := by
  simp only [isEmpty, Bool.or_eq_false_iff, beq_eq_false_iff_ne] at h
  omega

def Edge (r : Rect) (x y : Nat) : Prop :=
  r.Has x y ∧ (x = r.x ∨ x + 1 = r.x + r.width ∨ y = r.y ∨ y + 1 = r.y + r.height)

def Covers (r : Rect) (ss : List Stroke) : Prop := ∀ s ∈ ss, r.Has s.x s.y

theorem Covers.append (hs : r.Covers ss) (ht : r.Covers ts) : r.Covers (ss ++ ts) :=
  fun a ha => (List.mem_append.mp ha).elim (hs a) (ht a)

theorem Covers.mono (h : r.Covers ss) (hrs : ∀ x y, r.Has x y → s.Has x y) : s.Covers ss :=
  fun a ha => hrs _ _ (h a ha)

theorem Covers.editsAt_eq_nil (h : r.Covers ss) (hxy : ¬r.Has x y) : editsAt x y ss = [] := by
  refine StorageClient.editsAt_eq_nil fun s hs => ?_
  rintro ⟨rfl, rfl⟩
  exact hxy (h s hs)

theorem inter_right_le (h : 0 < (r.inter s).width) : (r.inter s).x + (r.inter s).width ≤ Word.max16 := by
  simp only [inter, right, bottom, Word.satAdd16] at h ⊢
  omega

theorem inter_bottom_le (h : 0 < (r.inter s).height) :
    (r.inter s).y + (r.inter s).height ≤ Word.max16 := by
  simp only [inter, right, bottom, Word.satAdd16] at h ⊢
  omega

end Rect

/-! ### The parts of widgets -/

namespace Draw
open Text

variable {area r : Rect}

theorem edit_of_mem_clear {s : Stroke} (h : s ∈ clear area r) : s.edit = .clear := by
  simp only [clear, List.mem_flatMap, List.mem_map] at h
  obtain ⟨y, -, x, -, rfl⟩ := h
  rfl

theorem clear_covered : (r.inter area).Covers (clear area r) := by
  intro s hs
  simp only [clear, List.mem_flatMap, List.mem_map] at hs
  obtain ⟨y, hy, x, hx, rfl⟩ := hs
  exact ⟨(Rect.mem_columns.mp hx).1, (Rect.mem_columns.mp hx).2, Rect.mem_rows.mp hy⟩

theorem borders_edge (hempty : r.isEmpty = false) (hright : r.x + r.width ≤ Word.max16)
    (hbottom : r.y + r.height ≤ Word.max16) {s : Stroke} (h : s ∈ borders r) : r.Edge s.x s.y := by
  obtain ⟨hwidth, hheight⟩ := Rect.isEmpty_eq_false hempty
  have hr : r.right = r.x + r.width := Nat.min_eq_left hright
  have hb : r.bottom = r.y + r.height := Nat.min_eq_left hbottom
  simp only [borders, List.mem_append, List.mem_map, Rect.mem_rows, Rect.mem_columns,
    List.mem_cons, List.not_mem_nil, or_false, hr, hb] at h
  rcases h with ((((⟨z, hz, rfl⟩ | ⟨z, hz, rfl⟩) | ⟨z, hz, rfl⟩) | ⟨z, hz, rfl⟩) |
    rfl | rfl | rfl | rfl) <;>
  · simp only [border, Rect.Edge, Rect.Has, eq_self, true_or, or_true, and_true]
    omega

theorem titleClusters_within {start stop x : Nat} {style : Style} {gs : List Text}
    (hstart : start ≤ x) (hstop : start < stop) {s : Stroke}
    (h : s ∈ titleClusters start stop y style x gs) : s.y = y ∧ start ≤ s.x ∧ s.x < stop := by
  induction gs generalizing x with
  | nil => cases h
  | cons g gs ih =>
    simp only [titleClusters] at h
    split at h
    · cases h
    · next hfits =>
      simp only [List.mem_append, List.mem_cons, List.mem_map, List.mem_range] at h
      rcases h with (rfl | ⟨i, hi, rfl⟩) | h
      · split
        · next hzero =>
          dsimp only
          omega
        · next hzero =>
          dsimp only
          omega
      · dsimp only
        omega
      · exact ih (by omega) h

theorem title_within {x room : Nat} {t : Text} {s : Stroke} (h : s ∈ title x y room t) :
    s.y = y ∧ x ≤ s.x ∧ s.x < x + room := by
  simp only [title] at h
  split at h
  · cases h
  · next hroom =>
    have hwithin := titleClusters_within (Nat.le_refl x) (by omega) h
    omega

/-- A frame is drawn along the edges, and its title as well. -/
theorem block_edge {t : Text} {s : Stroke} (h : s ∈ block area r t) :
    (r.inter area).Edge s.x s.y := by
  simp only [block] at h
  split at h
  · cases h
  · next hempty =>
    have hempty : (r.inter area).isEmpty = false := by simpa using hempty
    obtain ⟨hwidth, hheight⟩ := Rect.isEmpty_eq_false hempty
    have hright := Rect.inter_right_le hwidth
    have hbottom := Rect.inter_bottom_le hheight
    rcases List.mem_append.mp h with h | h
    · exact borders_edge hempty hright hbottom h
    · have hwithin := title_within h
      simp only [Rect.Edge, Rect.Has]
      omega

theorem dialog_covered {t : Text} : (r.inter area).Covers (dialog area r t) :=
  clear_covered.append fun _ hs => (block_edge hs).1

theorem dialog_within (area w : Rect) (t : Text) : w.Covers (dialog area w t) :=
  dialog_covered.mono fun _ _ h => (Rect.has_of_has_inter h).1

theorem editsAt_dialog {t : Text} (h : ¬(r.inter area).Edge x y) {e : Edit}
    (he : e ∈ editsAt x y (dialog area r t)) : e = .clear := by
  rw [dialog, editsAt_append, List.mem_append] at he
  rcases he with he | he
  · exact edit_of_mem_clear (mem_editsAt.mp he)
  · exact absurd (block_edge (mem_editsAt.mp he)) h

theorem lineClusters_within {full room x : Nat} {style : Style} {gs : List Text} {s : Stroke}
    (h : s ∈ lineClusters full y style x room gs) :
    s.y = y ∧ x ≤ s.x ∧ s.x < x + room ∧ s.x < x + clusterColumns gs := by
  induction gs generalizing x room with
  | nil => cases h
  | cons g gs ih =>
    simp only [lineClusters] at h
    simp only [clusterColumns]
    split at h
    · have hs := ih h
      omega
    · split at h
      · cases h
      · split at h
        · have hs := ih h
          omega
        · rcases List.mem_cons.mp h with rfl | h
          · dsimp only
            omega
          · have hs := ih h
            omega

theorem line_within {l : Line} {s : Stroke} (h : s ∈ line r y l) :
    s.y = y ∧ r.x ≤ s.x ∧ s.x < r.x + r.width := by
  have hs := lineClusters_within h
  omega

theorem paragraph_covered {ls : List Line} : (r.inter area).Covers (paragraph area r ls) := by
  intro s h
  simp only [paragraph] at h
  split at h
  · cases h
  · obtain ⟨⟨y, l⟩, hyl, h⟩ := List.mem_flatMap.mp h
    obtain ⟨rfl, hx⟩ := line_within h
    have hy := Rect.mem_rows.mp (List.of_mem_zip hyl).1
    exact ⟨hx.1, hx.2, hy⟩

theorem paragraph_within {w : Rect} (h : ∀ x y, r.Has x y → w.Has x y) (ls : List Line) :
    w.Covers (paragraph area r ls) :=
  fun k hk => h _ _ (Rect.has_of_has_inter (paragraph_covered k hk)).1

theorem le_y_of_mem_paragraph {ls : List Line} {s : Stroke} (h : s ∈ paragraph area r ls) :
    r.y ≤ s.y :=
  (Rect.has_of_has_inter (paragraph_covered s h)).1.2.2.1

end Draw

end StorageClient
