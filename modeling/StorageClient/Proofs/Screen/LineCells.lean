import StorageClient.Proofs.Screen.Strokes

/-!
Where the characters of a line stand. A character with a width of its own is drawn as many columns
to the right of the line's start as the characters before it take, together with its marks; behind
the last one nothing is drawn.
-/

namespace StorageClient.Draw
open Text

variable {full room x y : Nat} {style : Style} {r area : Rect} {t u : Text} {c : Char}

theorem lineClusters_append {gs : List Text} (hroom : room ≤ full) (h : clusterColumns gs ≤ room)
    (hs : List Text) :
    lineClusters full y style x room (gs ++ hs) = lineClusters full y style x room gs ++
      lineClusters full y style (x + clusterColumns gs) (room - clusterColumns gs) hs := by
  induction gs generalizing x room with
  | nil => rfl
  | cons g gs ih =>
    rw [clusterColumns] at h ⊢
    have hnarrow : ¬full < columns g := by omega
    have hfits : ¬room < columns g := by omega
    simp only [List.cons_append, lineClusters, hnarrow, hfits, if_false]
    by_cases hzero : columns g = 0
    · simp only [hzero, if_true, ih hroom (by omega), Nat.zero_add]
    · simp only [hzero, if_false, ih (Nat.le_trans (Nat.sub_le _ _) hroom) (Nat.le_sub_of_add_le' h),
        List.cons_append, Nat.add_assoc, Nat.sub_add_eq]

theorem line_of_visible (h : ∀ d ∈ t, isControl d = false) :
    line r y ⟨t, style⟩ = lineClusters r.width y style r.x r.width (clusters t) := by
  rw [line, filter_isDrawable_clusters h]

theorem line_within_columns (h : ∀ d ∈ t, isControl d = false) {s : Stroke}
    (hs : s ∈ line r y ⟨t, style⟩) : s.x < r.x + columns t := by
  rw [line_of_visible h] at hs
  rw [← clusterColumns_clusters]
  exact (lineClusters_within hs).2.2.2

theorem editsAt_line (hvisible : ∀ d ∈ t ++ c :: u, isControl d = false) (hc : 0 < width c)
    (hfits : columns t + columns (c :: u.takeWhile isMark) ≤ r.width) :
    editsAt (r.x + columns t) y (line r y ⟨t ++ c :: u, style⟩) =
      [.put (c :: u.takeWhile isMark) style] := by
  obtain ⟨hcontrol, -, hignorable⟩ := of_width_pos hc
  have hpos := columns_cons_pos hc (u.takeWhile isMark)
  rw [line_of_visible hvisible, clusters_append_cons t hc, clusters_cons hcontrol hignorable,
    lineClusters_append (Nat.le_refl _) (by rw [clusterColumns_clusters]; omega),
    clusterColumns_clusters, editsAt_append, lineClusters, if_neg (by omega), if_neg (by omega),
    if_neg (by omega)]
  have hbefore : editsAt (r.x + columns t) y
      (lineClusters r.width y style r.x r.width (clusters t)) = [] := by
    refine editsAt_eq_nil fun s hs => ?_
    have hwithin := lineClusters_within hs
    rw [clusterColumns_clusters] at hwithin
    omega
  have hafter : editsAt (r.x + columns t) y (lineClusters r.width y style
      (r.x + columns t + columns (c :: u.takeWhile isMark))
      (r.width - columns t - columns (c :: u.takeWhile isMark))
      (clusters (u.dropWhile isMark))) = [] := by
    refine editsAt_eq_nil fun s hs => ?_
    have hwithin := lineClusters_within hs
    omega
  rw [hbefore, editsAt_cons, hafter, List.nil_append]

theorem editsAt_line_eq_nil (hvisible : ∀ d ∈ t, isControl d = false)
    (hx : r.x + columns t ≤ x) : editsAt x y (line r y ⟨t, style⟩) = [] := by
  refine editsAt_eq_nil fun s hs hxy => ?_
  have hwithin := line_within_columns hvisible hs
  omega

theorem editsAt_rows {ls : List Line} {i : Nat} {l : Line} (hl : ls[i]? = some l) {start n : Nat}
    (hi : i < n) :
    editsAt x (start + i) (((List.range' start n).zip ls).flatMap fun (y, l) => line r y l) =
      editsAt x (start + i) (line r (start + i) l) := by
  induction ls generalizing i start n with
  | nil => cases hl
  | cons k ls ih =>
    obtain ⟨n, rfl⟩ : ∃ m, n = m + 1 := ⟨n - 1, by omega⟩
    rw [List.range'_succ, List.zip_cons_cons, List.flatMap_cons, editsAt_append]
    cases i with
    | zero =>
      obtain rfl : k = l := by simpa using hl
      have hothers : editsAt x start
          (((List.range' (start + 1) n).zip ls).flatMap fun (y, l) => line r y l) = [] := by
        refine editsAt_eq_nil fun s hs => ?_
        obtain ⟨⟨y, l⟩, hyl, hs⟩ := List.mem_flatMap.mp hs
        have hy := List.mem_range'_1.mp (List.of_mem_zip hyl).1
        have hwithin := line_within hs
        omega
      rw [Nat.add_zero, hothers, List.append_nil]
    | succ i =>
      have hfirst : editsAt x (start + (i + 1)) (line r start k) = [] := by
        refine editsAt_eq_nil fun s hs => ?_
        have hwithin := line_within hs
        omega
      rw [hfirst, List.nil_append, Nat.add_comm i, ← Nat.add_assoc]
      exact ih (by simpa using hl) (by omega)

theorem editsAt_paragraph {p : Rect} (hp : r.inter area = p) {ls : List Line} {i : Nat} {l : Line}
    (hl : ls[i]? = some l) (hwidth : 0 < p.width) (hi : i < p.height) :
    editsAt x (p.y + i) (paragraph area r ls) = editsAt x (p.y + i) (line p (p.y + i) l) := by
  have hempty : p.isEmpty = false := by
    simp only [Rect.isEmpty, Bool.or_eq_false_iff, beq_eq_false_iff_ne]
    omega
  simp only [paragraph, hp, hempty, Bool.false_eq_true, if_false]
  rw [Rect.rows, ← List.range'_eq_map_range]
  exact editsAt_rows hl hi

theorem paragraph_singleton_lt {l : Line} (hvisible : ∀ d ∈ l.text, isControl d = false)
    {k : Stroke} (hk : k ∈ paragraph area r [l]) : k.x < (r.inter area).x + columns l.text := by
  simp only [paragraph] at hk
  split at hk
  · cases hk
  · obtain ⟨⟨y, l'⟩, hyl, hline⟩ := List.mem_flatMap.mp hk
    obtain rfl : l' = l := by simpa using (List.of_mem_zip hyl).2
    exact line_within_columns hvisible hline

/-- In a label of narrow characters each one has the column of its place. -/
theorem editsAt_label {p : Rect} (hp : r.inter area = p) (hheight : 0 < p.height) {k : Nat}
    (hplain : ∀ d ∈ t, isControl d = false ∧ width d = 1) (hc : t[k]? = some c) (hk : k < p.width) :
    editsAt (p.x + k) p.y (paragraph area r [⟨t, style⟩]) = [.put [c] style] := by
  have hsplit := take_append_cons_drop hc
  have hcolumns : columns (t.take k) = k := by
    rw [columns_eq_length fun d hd => (hplain d (List.mem_of_mem_take hd)).2]
    exact List.length_take_of_le (Nat.le_of_lt (List.getElem?_eq_some_iff.mp hc).1)
  have hmarks : (t.drop (k + 1)).takeWhile isMark = [] :=
    takeWhile_isMark_eq_nil fun d hd => (hplain d (List.mem_of_mem_drop hd)).2 ▸ Nat.one_pos
  have hone : width c = 1 := (hplain c (List.mem_of_getElem? hc)).2
  have halone : columns [c] = 1 := columns_eq_length fun d hd => by rwa [List.mem_singleton.mp hd]
  have hline : editsAt (p.x + columns (t.take k)) p.y
      (line p p.y ⟨t.take k ++ c :: t.drop (k + 1), style⟩) =
        [.put (c :: (t.drop (k + 1)).takeWhile isMark) style] := by
    refine editsAt_line (hsplit.symm ▸ fun d hd => (hplain d hd).1) (hone ▸ Nat.one_pos) ?_
    rw [hmarks, halone, hcolumns]
    exact hk
  rw [hsplit, hcolumns, hmarks] at hline
  exact (editsAt_paragraph hp rfl (Nat.zero_lt_of_lt hk) hheight).trans hline

end StorageClient.Draw
