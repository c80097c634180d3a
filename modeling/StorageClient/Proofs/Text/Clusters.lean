import StorageClient.Proofs.Text.Clipping
import StorageClient.Text.Cluster

/-!
Clusters and their columns. A character with a width of its own starts a cluster, which holds nothing
else but the marks behind it. So a text is drawn in the columns that its characters take one by one,
but for those that a mark turns into an emoji.
-/

namespace StorageClient.Text

theorem isControl_eq_inRanges (c : Char) :
    isControl c = inRanges [(0, 0x1F), (0x7F, 0x9F)] c.toNat := by
  simp only [isControl, inRanges]
  grind

theorem isIgnorable_of_isMark {c : Char} (h : isMark c = true) : isIgnorable c = false :=
  inRanges_disjoint (by decide +kernel) h

theorem isControl_of_isMark {c : Char} (h : isMark c = true) : isControl c = false :=
  (isControl_eq_inRanges c).trans (inRanges_disjoint (by decide +kernel) h)

theorem width_of_isMark {c : Char} (h : isMark c = true) : width c = 0 := by
  simp [width, h]

/-- What a character with a width of its own is not. -/
theorem of_width_pos {c : Char} (h : 0 < width c) :
    isControl c = false ∧ isMark c = false ∧ isIgnorable c = false := by
  simp only [width] at h
  split at h
  · cases h
  · next hc =>
    simp only [Bool.or_eq_true, not_or, Bool.not_eq_true] at hc
    exact ⟨hc.1.1.1, hc.1.1.2, hc.1.2⟩

theorem joins_of_width_pos (c : Char) {m : Char} (h : 0 < width m) : joins c m = false := by
  obtain ⟨hcontrol, hmark, -⟩ := of_width_pos h
  have hm : (m == '\n') = false := by
    rw [beq_eq_false_iff_ne]
    rintro rfl
    cases hcontrol
  simp [joins, hmark, hm]

theorem exists_clusters_cons (c : Char) (t : Text) : ∃ g gs, clusters (c :: t) = (c :: g) :: gs := by
  change ∃ g gs, consCluster c (clusters t) = (c :: g) :: gs
  unfold consCluster
  split
  · split
    · exact ⟨_, _, rfl⟩
    · exact ⟨_, _, rfl⟩
  · exact ⟨_, _, rfl⟩

theorem clusters_append_cons (t : Text) {c : Char} (hc : 0 < width c) (u : Text) :
    clusters (t ++ c :: u) = clusters t ++ clusters (c :: u) := by
  induction t with
  | nil => rfl
  | cons d t ih =>
    change consCluster d (clusters (t ++ c :: u)) = consCluster d (clusters t) ++ clusters (c :: u)
    rw [ih]
    cases t with
    | nil =>
      obtain ⟨g, gs, hg⟩ := exists_clusters_cons c u
      rw [hg]
      simp [clusters, consCluster, joins_of_width_pos d hc]
    | cons e t =>
      obtain ⟨g, gs, hg⟩ := exists_clusters_cons e t
      rw [hg]
      simp only [List.cons_append, consCluster]
      split <;> rfl

theorem clusters_cons {c : Char} (hcontrol : isControl c = false) (hignorable : isIgnorable c = false)
    (t : Text) :
    clusters (c :: t) = (c :: t.takeWhile isMark) :: clusters (t.dropWhile isMark) := by
  induction t generalizing c with
  | nil => rfl
  | cons m t ih =>
    change consCluster c (clusters (m :: t)) = _
    cases hm : isMark m with
    | true =>
      rw [ih (isControl_of_isMark hm) (isIgnorable_of_isMark hm)]
      simp [consCluster, joins, hm, hcontrol, hignorable]
    | false =>
      obtain ⟨g, gs, hg⟩ := exists_clusters_cons m t
      have hcr : (c == '\r') = false := by
        rw [beq_eq_false_iff_ne]
        rintro rfl
        cases hcontrol
      rw [List.takeWhile_cons_of_neg (by simp [hm]), List.dropWhile_cons_of_neg (by simp [hm]), hg]
      simp [consCluster, joins, hm, hcr]

/-! ### Columns -/

theorem of_isEmoji {c : Char} {t : Text} (h : isEmoji c t = true) :
    isControl c = false ∧ isIgnorable c = false ∧ t.head? = some emojiSelector := by
  obtain ⟨hbase, hhead⟩ : inRanges emojiRanges c.toNat = true ∧ t.head? = some emojiSelector := by
    simpa [isEmoji] using h
  refine ⟨(isControl_eq_inRanges c).trans (inRanges_disjoint (by decide +kernel) hbase), ?_, hhead⟩
  exact inRanges_disjoint (by decide +kernel) hbase

theorem isMark_emojiSelector : isMark emojiSelector = true := by decide +kernel

/-- Only the selector makes a character wider than it is. -/
theorem columns_eq_totalWidth {t : Text} (h : emojiSelector ∉ t) : columns t = totalWidth t := by
  induction t with
  | nil => rfl
  | cons c t ih =>
    have hemoji : isEmoji c t = false := by
      refine Bool.eq_false_iff.mpr fun hemoji => ?_
      exact h (List.mem_cons_of_mem c (List.mem_of_head? (of_isEmoji hemoji).2.2))
    rw [columns_cons, hemoji, if_neg Bool.false_ne_true, totalWidth_cons,
      ih fun hmem => h (List.mem_cons_of_mem c hmem)]

theorem columns_of_width_pos {t : Text} (h : ∀ c ∈ t, 0 < width c) : columns t = totalWidth t := by
  refine columns_eq_totalWidth fun hmem => ?_
  have hpos := h _ hmem
  rw [width_of_isMark isMark_emojiSelector] at hpos
  exact Nat.lt_irrefl 0 hpos

theorem columns_eq_length {t : Text} (h : ∀ c ∈ t, width c = 1) : columns t = t.length :=
  (columns_of_width_pos fun c hc => h c hc ▸ Nat.one_pos).trans (totalWidth_eq_length h)

/-- With its marks a character is drawn in its own columns or in those of its emoji. -/
theorem columns_cons_pos {c : Char} (hc : 0 < width c) (t : Text) : 0 < columns (c :: t) := by
  rw [columns_cons]
  split <;> omega

def clusterColumns : List Text → Nat
  | [] => 0
  | g :: gs => columns g + clusterColumns gs

theorem clusterColumns_clusters (t : Text) : clusterColumns (clusters t) = columns t := by
  induction t with
  | nil => rfl
  | cons c t ih =>
    change clusterColumns (consCluster c (clusters t)) = _
    cases t with
    | nil => rfl
    | cons m t =>
      obtain ⟨g, gs, hg⟩ := exists_clusters_cons m t
      rw [hg] at ih ⊢
      rw [columns_cons, ← ih]
      simp only [consCluster]
      cases hjoins : joins c m with
      | true => exact Nat.add_assoc _ _ _
      | false =>
        -- A mark that makes an emoji would have joined it.
        have hemoji : isEmoji c (m :: t) = false := by
          refine Bool.eq_false_iff.mpr fun hemoji => ?_
          obtain ⟨hcontrol, hignorable, hhead⟩ := of_isEmoji hemoji
          obtain rfl := Option.some.inj hhead
          simp [joins, hcontrol, hignorable, isMark_emojiSelector] at hjoins
        have halone : columns [c] = width c := by simp [columns, isEmoji]
        rw [hemoji, if_neg Bool.false_ne_true, if_neg Bool.false_ne_true, clusterColumns, halone]

theorem takeWhile_isMark_eq_nil {t : Text} (h : ∀ c ∈ t, 0 < width c) : t.takeWhile isMark = [] := by
  cases t with
  | nil => rfl
  | cons c t =>
    obtain ⟨-, hmark, -⟩ := of_width_pos (h c List.mem_cons_self)
    rw [List.takeWhile_cons_of_neg (by simp [hmark])]

theorem filter_isDrawable_clusters {t : Text} (h : ∀ c ∈ t, isControl c = false) :
    (clusters t).filter isDrawable = clusters t := by
  refine List.filter_eq_self.mpr fun g hg => ?_
  have hmem : ∀ c ∈ g, c ∈ t := by
    intro c hc
    rw [← flatten_clusters t]
    exact List.mem_flatten.mpr ⟨g, hg, hc⟩
  simp only [isDrawable, Bool.not_eq_true', List.any_eq_false]
  intro c hc
  simp [h c (hmem c hc)]

end StorageClient.Text
