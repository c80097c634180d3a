import Mathlib.Data.List.Chain
import StorageClient.Proofs.Wire.Quoting

/-!
Newline markers. Expanding leaves none behind, so nothing is left to expand a second time; what was
escaped before comes back only if nothing in it had to be escaped.
-/

namespace StorageClient.Escape

/-- The places of a text where a backslash is immediately followed by the letter n. -/
def markers (t : Text) : Nat := (t.zip t.tail).count ('\\', 'n')

def Unmarked (t : Text) : Prop := t.IsChain fun a b => ¬ (a = '\\' ∧ b = 'n')

theorem markers_cons (c : Char) (t : Text) :
    markers (c :: t) = markers t + if c = '\\' ∧ t.head? = some 'n' then 1 else 0 := by
  cases t with
  | nil => simp [markers]
  | cons d t => simp [markers, List.count_cons]

/-! ### Expanding -/

theorem not_marker {c : Char} {t : Text} (h : ∀ u, c = '\\' → t = 'n' :: u → False) :
    ¬ (c = '\\' ∧ t.head? = some 'n') := by
  rintro ⟨hc, hn⟩
  obtain ⟨u, hu⟩ := List.head?_eq_some_iff.1 hn
  exact h u hc hu

theorem head?_of_expand {t : Text} (h : (expand t).head? = some 'n') : t.head? = some 'n' := by
  unfold expand at h
  split at h
  · simp at h
  · simpa using h
  · exact h

theorem length_expand (t : Text) : (expand t).length + markers t = t.length := by
  fun_induction expand t with
  | case1 t ih =>
    simp only [markers_cons, List.length_cons, List.head?_cons]
    simp
    omega
  | case2 c t hmarker ih =>
    simp only [markers_cons, if_neg (not_marker hmarker), List.length_cons]
    omega
  | case3 => rfl

theorem count_newline_expand (t : Text) : (expand t).count '\n' = t.count '\n' + markers t := by
  fun_induction expand t with
  | case1 t ih =>
    simp [markers_cons, ih]
    omega
  | case2 c t hmarker ih =>
    simp only [markers_cons, if_neg (not_marker hmarker), List.count_cons, ih]
    omega
  | case3 => rfl

theorem unmarked_expand (t : Text) : Unmarked (expand t) := by
  fun_induction expand t with
  | case1 t ih =>
    refine List.isChain_cons.2 ⟨fun d _ => ?_, ih⟩
    rintro ⟨hslash, -⟩
    exact absurd hslash (by decide)
  | case2 c t hmarker ih =>
    refine List.isChain_cons.2 ⟨fun d hd => ?_, ih⟩
    rintro ⟨rfl, rfl⟩
    exact not_marker hmarker ⟨rfl, head?_of_expand hd⟩
  | case3 => exact .nil

theorem expand_of_unmarked {t : Text} (h : Unmarked t) : expand t = t := by
  fun_induction expand t with
  | case1 t ih =>
    have hfirst := (List.isChain_cons.1 h).1 'n' rfl
    exact absurd ⟨rfl, rfl⟩ hfirst
  | case2 c t _ ih => rw [ih (List.isChain_cons.1 h).2]
  | case3 => rfl

/-! ### Expanding what was escaped -/

theorem head?_encode (t : Text) : (encode t).head? = some 'n' ↔ t.head? = some 'n' := by
  cases t with
  | nil => exact Iff.rfl
  | cons c t =>
    have hplain : ¬ IsSpecial 'n' := by decide
    by_cases hc : IsSpecial c
    · have hn : c ≠ 'n' := fun heq => hplain (heq ▸ hc)
      simp [encode_cons, encodeChar, hc, hn]
    · simp [encode_cons, encodeChar, hc]

/-- The second half of a doubled backslash stands where the backslash stood, and the backslash of a
quote precedes no letter. -/
theorem markers_encode (t : Text) : markers (encode t) = markers t := by
  induction t with
  | nil => rfl
  | cons c t ih =>
    rw [encode_cons, markers_cons, encodeChar]
    by_cases hslash : c = '\\'
    · subst hslash
      simp [IsSpecial, markers_cons, head?_encode, ih]
    · by_cases hquote : c = '"'
      · subst hquote
        simp [IsSpecial, markers_cons, ih]
      · simp [IsSpecial, markers_cons, hslash, hquote, ih]

theorem count_newline_encode (t : Text) : (encode t).count '\n' = t.count '\n' := by
  induction t with
  | nil => rfl
  | cons c t ih =>
    rw [encode_cons, List.count_append, List.count_cons, ih, encodeChar]
    by_cases hc : IsSpecial c
    · have hn : c ≠ '\n' := by
        rintro rfl
        exact absurd hc (by decide)
      simp [hc, hn]
    · simp [hc, List.count_singleton, Nat.add_comm]

theorem encode_eq_self {t : Text} (hslash : '\\' ∉ t) (hquote : '"' ∉ t) : encode t = t := by
  induction t with
  | nil => rfl
  | cons c t ih =>
    simp only [List.mem_cons, not_or] at hslash hquote
    have hc : ¬ IsSpecial c := not_or.2 ⟨Ne.symm hslash.1, Ne.symm hquote.1⟩
    rw [encode_cons, encodeChar, if_neg hc, ih hslash.2 hquote.2, List.singleton_append]

theorem unmarked_of_not_mem {t : Text} (h : '\\' ∉ t) : Unmarked t := by
  induction t with
  | nil => exact .nil
  | cons c t ih =>
    rw [List.mem_cons, not_or] at h
    refine List.isChain_cons.2 ⟨fun d _ => ?_, ih h.2⟩
    exact fun hmarker => h.1 hmarker.1.symm

theorem count_newline_expand_encode (t : Text) :
    (expand (encode t)).count '\n' = t.count '\n' + markers t := by
  rw [count_newline_expand, count_newline_encode, markers_encode]

theorem expand_encode_eq_self_iff (t : Text) : expand (encode t) = t ↔ '\\' ∉ t ∧ '"' ∉ t := by
  constructor
  · intro h
    -- A marker would bring in a newline, and without one nothing takes back what escaping added.
    have hnewlines := count_newline_expand_encode t
    have hlength := length_expand (encode t)
    have hadded := length_encode t
    rw [h] at hnewlines hlength
    rw [markers_encode] at hlength
    have hslash : t.count '\\' = 0 := by omega
    have hquote : t.count '"' = 0 := by omega
    exact ⟨List.count_eq_zero.1 hslash, List.count_eq_zero.1 hquote⟩
  · rintro ⟨hslash, hquote⟩
    rw [encode_eq_self hslash hquote, expand_of_unmarked (unmarked_of_not_mem hslash)]

/-- A text comes back from escaping and expanding exactly if it has no backslash and no quote; each
marker in it makes one more newline. No expanded text has a marker left, so it expands to itself,
and expanding makes a text shorter by its markers. -/
theorem expand_encode_restores (t u : Text) :
    (expand (encode t) = t ↔ '\\' ∉ t ∧ '"' ∉ t) ∧
      (expand (encode t)).count '\n' = t.count '\n' + markers t ∧
      Unmarked (expand u) ∧ expand (expand u) = expand u ∧
      (expand u).length + markers u = u.length :=
  ⟨expand_encode_eq_self_iff t, count_newline_expand_encode t, unmarked_expand u,
    expand_of_unmarked (unmarked_expand u), length_expand u⟩

/-- The second half of the doubled backslash makes a marker, the first half stays. -/
example : expand (encode "a\\nb\"".toList) = "a\\\nb\\\"".toList := by decide

end StorageClient.Escape
