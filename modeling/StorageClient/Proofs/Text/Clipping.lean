import StorageClient.Text.Width

/-!
Cutting a line to a number of columns. Control characters count nothing and are left out, and all
that fits in front stays.
-/

namespace StorageClient.Text

theorem totalWidth_append (t u : Text) : totalWidth (t ++ u) = totalWidth t + totalWidth u := by
  induction t with
  | nil => simp [totalWidth]
  | cons c t ih => rw [List.cons_append, totalWidth_cons, totalWidth_cons, ih, Nat.add_assoc]

theorem width_of_isControl {c : Char} (h : isControl c = true) : width c = 0 := by
  simp [width, h]

theorem totalWidth_visible (t : Text) :
    totalWidth (t.filter fun c => !isControl c) = totalWidth t := by
  induction t with
  | nil => rfl
  | cons c t ih =>
    cases hc : isControl c with
    | true => simp [hc, ih, totalWidth_cons, width_of_isControl hc]
    | false => simp [hc, ih, totalWidth_cons]

theorem totalWidth_eq_length {t : Text} (h : ∀ c ∈ t, width c = 1) : totalWidth t = t.length := by
  induction t with
  | nil => rfl
  | cons c t ih =>
    obtain ⟨hc, ht⟩ := List.forall_mem_cons.mp h
    rw [totalWidth_cons, hc, ih ht, List.length_cons, Nat.add_comm]

theorem take_append_cons_drop {t : Text} {k : Nat} {c : Char} (h : t[k]? = some c) :
    t.take k ++ c :: t.drop (k + 1) = t := by
  obtain ⟨hlt, rfl⟩ := List.getElem?_eq_some_iff.mp h
  rw [List.getElem_cons_drop, List.take_append_drop]

theorem fit_append {n : Nat} {t : Text} (h : totalWidth t ≤ n) (u : Text) :
    fit n (t ++ u) = t ++ fit (n - totalWidth t) u := by
  induction t generalizing n with
  | nil => rfl
  | cons c t ih =>
    rw [totalWidth_cons] at h
    rw [List.cons_append, fit, if_pos (by omega), ih (by omega), totalWidth_cons, Nat.sub_add_eq,
      List.cons_append]

theorem prefix_fit_iff {n : Nat} {p t : Text} : p <+: fit n t ↔ p <+: t ∧ totalWidth p ≤ n := by
  induction t generalizing n p with
  | nil =>
    simp only [fit, List.prefix_nil, iff_self_and]
    rintro rfl
    exact Nat.zero_le n
  | cons c t ih =>
    cases p with
    | nil => simp [totalWidth]
    | cons d p =>
      simp only [fit]
      split
      · rw [List.cons_prefix_cons, List.cons_prefix_cons, ih, totalWidth_cons, and_assoc]
        refine and_congr_right fun hd => and_congr_right fun _ => ?_
        subst hd
        omega
      · next hover =>
        rw [List.cons_prefix_cons, totalWidth_cons]
        constructor
        · exact fun h => absurd (List.prefix_nil.mp h) (List.cons_ne_nil d p)
        · rintro ⟨⟨rfl, -⟩, hle⟩
          omega

theorem fit_prefix_self (n : Nat) (t : Text) : fit n t <+: t :=
  (prefix_fit_iff.mp (List.prefix_refl _)).1

theorem fit_prefix_fit {m n : Nat} (h : m ≤ n) (t : Text) : fit m t <+: fit n t :=
  prefix_fit_iff.mpr ⟨fit_prefix_self m t, Nat.le_trans (totalWidth_fit_le m t) h⟩

theorem fit_fit {m n : Nat} (h : m ≤ n) (t : Text) : fit m (fit n t) = fit m t := by
  have hle : fit m (fit n t) <+: fit m t :=
    prefix_fit_iff.mpr ⟨(fit_prefix_self m _).trans (fit_prefix_self n t), totalWidth_fit_le m _⟩
  have hge : fit m t <+: fit m (fit n t) :=
    prefix_fit_iff.mpr ⟨fit_prefix_fit h t, totalWidth_fit_le m t⟩
  exact hle.eq_of_length_le hge.length_le

theorem isControl_of_mem_clip {t : Text} {n : Nat} {c : Char} (h : c ∈ clip t n) :
    isControl c = false := by
  have hc := (fit_prefix_self n _).subset h
  simpa using (List.mem_filter.mp hc).2

theorem clip_of_le {t : Text} {n : Nat} (h : totalWidth t ≤ n) :
    clip t n = t.filter fun c => !isControl c := by
  rw [← totalWidth_visible] at h
  have hfit := fit_append h []
  rwa [List.append_nil, fit, List.append_nil] at hfit

/-- Up to a character that fits, a line is cut nowhere. -/
theorem clip_append_cons {t u : Text} {c : Char} {n : Nat} (hc : isControl c = false)
    (h : totalWidth t + width c ≤ n) :
    clip (t ++ c :: u) n = (t.filter fun c => !isControl c) ++
      c :: fit (n - totalWidth t - width c) (u.filter fun c => !isControl c) := by
  rw [clip, List.filter_append, List.filter_cons_of_pos (by simp [hc]),
    fit_append (by rw [totalWidth_visible]; omega), totalWidth_visible, fit, if_pos (by omega)]

theorem clip_clip {m n : Nat} (h : m ≤ n) (t : Text) : clip (clip t n) m = clip t m := by
  have hvisible : ((clip t n).filter fun c => !isControl c) = clip t n :=
    List.filter_eq_self.mpr fun c hc => by simp [isControl_of_mem_clip hc]
  rw [clip, hvisible, clip, fit_fit h]
  rfl

/-- A line is cut to the longest of its visible beginnings that has room. So a line that is cut
needs no more cutting for the same room, and for less room it makes no difference that it has been
cut before. -/
theorem clip_longest (t : Text) (n : Nat) :
    let visible := t.filter fun c => !isControl c
    (clip t n <+: visible ∧ totalWidth (clip t n) ≤ n ∧
      ∀ p, p <+: visible → (clip t n).length < p.length → n < totalWidth p) ∧
    clip (clip t n) n = clip t n ∧
    ∀ m ≤ n, clip t m <+: clip t n ∧ clip (clip t n) m = clip t m := by
  intro visible
  refine ⟨⟨fit_prefix_self n visible, totalWidth_fit_le n visible, fun p hp hlonger => ?_⟩,
    clip_clip (Nat.le_refl n) t, fun m hm => ⟨fit_prefix_fit hm visible, clip_clip hm t⟩⟩
  refine Nat.lt_of_not_le fun hfits => ?_
  have hbegins : p <+: clip t n := prefix_fit_iff.mpr ⟨hp, hfits⟩
  exact Nat.not_lt.mpr hbegins.length_le hlonger

end StorageClient.Text
