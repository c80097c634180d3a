import StorageClient.Text.Basic

/-!
What a text loses at its end: `dropEndWhile` forgets everything it drops, brings in nothing, stops
at the last character that it keeps, and does nothing to a text that ends in one.
-/

namespace StorageClient.Text

variable {p : Char → Bool}

theorem mem_of_mem_dropEndWhile {t : Text} {c : Char} (h : c ∈ dropEndWhile p t) : c ∈ t := by
  have hrev : c ∈ t.reverse.dropWhile p := by simpa [dropEndWhile] using h
  exact List.mem_reverse.1 ((List.dropWhile_sublist p).subset hrev)

theorem dropEndWhile_append_of_forall {t ends : Text} (h : ∀ c ∈ ends, p c = true) :
    dropEndWhile p (t ++ ends) = dropEndWhile p t := by
  have hrev : ∀ c ∈ ends.reverse, p c = true := fun c hc => h c (List.mem_reverse.1 hc)
  rw [dropEndWhile, List.reverse_append, List.dropWhile_append_of_pos hrev, dropEndWhile]

theorem of_getLast?_dropEndWhile {t : Text} {c : Char} (h : (dropEndWhile p t).getLast? = some c) :
    p c = false := by
  have hhead : (t.reverse.dropWhile p).head? = some c := by
    rwa [dropEndWhile, List.getLast?_reverse] at h
  have hnot := List.head?_dropWhile_not p t.reverse
  rwa [hhead] at hnot

theorem dropEndWhile_cons (c : Char) (t : Text) : dropEndWhile p (c :: t) =
    if dropEndWhile p t = [] then (if p c then [] else [c]) else c :: dropEndWhile p t := by
  simp only [dropEndWhile, List.reverse_cons, List.dropWhile_append, List.isEmpty_iff,
    List.reverse_eq_nil_iff]
  by_cases ht : t.reverse.dropWhile p = []
  · by_cases hc : p c = true
    · simp [ht, hc]
    · simp [ht, hc]
  · simp [ht]

theorem dropEndWhile_append_of_last {t u : Text} {c : Char} (h : u.getLast? = some c)
    (hc : p c = false) : dropEndWhile p (u ++ t) = u ++ dropEndWhile p t := by
  obtain ⟨v, rfl⟩ := List.getLast?_eq_some_iff.1 h
  have hkept : ∀ r : Text,
      (r ++ (c :: v.reverse)).dropWhile p = r.dropWhile p ++ c :: v.reverse := by
    intro r
    induction r with
    | nil => simp [hc]
    | cons d r ih =>
      by_cases hd : p d = true
      · simpa [hd] using ih
      · simp [hd]
  simp [dropEndWhile, hkept]

theorem dropEndWhile_eq_self {t : Text} (h : ∀ c, t.getLast? = some c → p c = false) :
    dropEndWhile p t = t := by
  cases hlast : t.getLast? with
  | none =>
    rw [List.getLast?_eq_none_iff.1 hlast]
    rfl
  | some c =>
    have hkept := dropEndWhile_append_of_last (t := []) hlast (h c hlast)
    simpa [dropEndWhile] using hkept

end StorageClient.Text
