import StorageClient.Text.Wrap

/-!
What wrapping keeps of a text: every character but the newlines, in order, and no newline inside a
line. The length of the lines is not looked at here.
-/

namespace StorageClient.Text

theorem flatten_chunks (w : Nat) (t : Text) : (chunks w t).flatten = t := by
  fun_induction chunks w t with
  | case1 => rfl
  | case2 t _ ih => rw [List.flatten_cons, ih, List.take_append_drop]

theorem flatten_wrapSegment (w : Nat) (s : Text) : (wrapSegment w s).flatten = s := by
  unfold wrapSegment
  split
  · next h => simp [h]
  · exact flatten_chunks w s

theorem flatten_consHead (c : Char) (ss : List Text) :
    (consHead c ss).flatten = c :: ss.flatten := by
  cases ss <;> simp [consHead]

/-- A cut loses the separators and nothing else. -/
theorem flatten_pieces (sep : Char) (t : Text) :
    (pieces sep t).flatten = t.filter (· ≠ sep) := by
  induction t with
  | nil => rfl
  | cons c t ih =>
    simp only [pieces]
    split
    · next h => simp [h, ih]
    · next h => simp [flatten_consHead, h, ih]

/-- Wrapping loses the newlines and nothing else. -/
theorem flatten_wrap (t : Text) (w : Nat) : (wrap t w).flatten = t.filter (· ≠ '\n') := by
  have h : ∀ ss : List Text, (ss.flatMap (wrapSegment w)).flatten = ss.flatten := by
    intro ss
    induction ss with
    | nil => rfl
    | cons s ss ih => simp [flatten_wrapSegment, ih]
  rw [wrap, h, segments, flatten_pieces]

theorem flatten_wrap_of_not_mem {t : Text} (h : '\n' ∉ t) (w : Nat) : (wrap t w).flatten = t := by
  rw [flatten_wrap, List.filter_eq_self]
  intro c hc
  rw [decide_eq_true_eq]
  rintro rfl
  exact h hc

theorem not_mem_of_mem_wrap {t l : Text} {w : Nat} (h : l ∈ wrap t w) : '\n' ∉ l := by
  intro hn
  have hm : '\n' ∈ (wrap t w).flatten := List.mem_flatten.mpr ⟨l, h, hn⟩
  rw [flatten_wrap, List.mem_filter] at hm
  simp at hm

end StorageClient.Text
