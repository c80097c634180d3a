import Mathlib.Algebra.GroupWithZero.Nat
import Mathlib.Data.List.Forall2
import StorageClient.Proofs.Text.Lines

/-!
Wrapping, exactly. Each piece between newlines is set in lines on its own, and there is only one way
to do that: full lines and a last one that is not empty. From it follow the length and the number of
the lines.
-/

namespace StorageClient.Text

/-- The lines of `w` characters that a piece of a text is set in. An empty piece takes one empty
line; else all lines are full but the last, which has at least one character. -/
inductive Fills (w : Nat) : Text → List Text → Prop where
  | empty : Fills w [] [[]]
  | lines {full : List Text} {last : Text} (hfull : ∀ l ∈ full, l.length = w) (hlast : last ≠ [])
      (hle : last.length ≤ w) : Fills w (full.flatten ++ last) (full ++ [last])

variable {w : Nat} {s t : Text} {ls : List Text}

theorem length_flatten_of_full {full : List Text} (h : ∀ l ∈ full, l.length = w) :
    full.flatten.length = full.length * w := by
  rw [List.length_flatten, List.map_congr_left h, List.map_const', List.sum_replicate_nat]

namespace Fills

theorem length_le (h : Fills w s ls) {l : Text} (hl : l ∈ ls) : l.length ≤ w := by
  cases h with
  | empty => simp_all
  | lines hfull _ hle =>
    rcases List.mem_append.mp hl with hl | hl
    · exact Nat.le_of_eq (hfull l hl)
    · rwa [List.mem_singleton.mp hl]

theorem ne_nil_of_mem (h : Fills w s ls) (hw : 0 < w) (hs : s ≠ []) {l : Text} (hl : l ∈ ls) :
    l ≠ [] := by
  cases h with
  | empty => exact absurd rfl hs
  | lines hfull hlast =>
    rcases List.mem_append.mp hl with hl | hl
    · rw [← List.length_pos_iff, hfull l hl]
      exact hw
    · rwa [List.mem_singleton.mp hl]

theorem single (h : s ≠ []) (hle : s.length ≤ w) : Fills w s [s] :=
  @lines w [] s (List.forall_mem_nil _) h hle

theorem cons (h : Fills w s ls) (hs : s ≠ []) {l : Text} (hl : l.length = w) :
    Fills w (l ++ s) (l :: ls) := by
  cases h with
  | empty => exact absurd rfl hs
  | @lines full _ hfull hlast hle =>
    have hcons : ∀ k ∈ l :: full, k.length = w := List.forall_mem_cons.mpr ⟨hl, hfull⟩
    rw [← List.append_assoc, ← List.flatten_cons]
    exact .lines hcons hlast hle

theorem exists_last (h : Fills w s ls) : ∃ full last, ls = full ++ [last] ∧
    (∀ l ∈ full, l.length = w) ∧ last.length ≤ w ∧ full.flatten ++ last = s := by
  cases h with
  | empty => exact ⟨[], [], rfl, by simp, by simp, rfl⟩
  | @lines full last hfull _ hle => exact ⟨full, last, rfl, hfull, hle, rfl⟩

theorem length_eq (h : Fills w s ls) (hw : 0 < w) :
    ls.length = max 1 ((s.length + w - 1) / w) := by
  cases h with
  | empty =>
    have hzero : (w - 1) / w = 0 := Nat.div_eq_of_lt (by omega)
    simp [hzero]
  | @lines full last hfull hlast hle =>
    have hpos : 0 < last.length := List.length_pos_iff.mpr hlast
    -- Rounded up, the last line counts as a full one.
    have hsum : (full.flatten ++ last).length + w - 1 = last.length - 1 + w * (full.length + 1) := by
      rw [List.length_append, length_flatten_of_full hfull, Nat.mul_succ, Nat.mul_comm]
      omega
    have hdiv : ((full.flatten ++ last).length + w - 1) / w = full.length + 1 := by
      rw [hsum, Nat.add_mul_div_left _ _ hw, Nat.div_eq_of_lt (by omega), Nat.zero_add]
    rw [hdiv, List.length_append, List.length_singleton, Nat.max_eq_right (by omega)]

end Fills

theorem fills_chunks (h : t ≠ []) : Fills (max w 1) t (chunks w t) := by
  fun_induction chunks w t with
  | case1 => exact absurd rfl h
  | case2 t _ ih =>
    by_cases hrest : t.drop (max w 1) = []
    · have hle : t.length ≤ max w 1 := List.drop_eq_nil_iff.mp hrest
      rw [hrest, chunks_nil, List.take_of_length_le hle]
      exact .single h hle
    · have hlen : (t.take (max w 1)).length = max w 1 := by
        rw [List.length_take]
        have hlt : max w 1 < t.length := by simpa using hrest
        omega
      have hcons := (ih hrest).cons hrest hlen
      rwa [List.take_append_drop] at hcons

theorem fills_wrapSegment (w : Nat) (s : Text) : Fills (max w 1) s (wrapSegment w s) := by
  unfold wrapSegment
  split
  · next h =>
    rw [h]
    exact .empty
  · next h => exact fills_chunks h

theorem chunks_of_full {full : List Text} {last : Text} (hfull : ∀ l ∈ full, l.length = max w 1)
    (hlast : last ≠ []) (hle : last.length ≤ max w 1) :
    chunks w (full.flatten ++ last) = full ++ [last] := by
  induction full with
  | nil =>
    rw [List.flatten_nil, List.nil_append, List.nil_append, chunks_of_ne_nil w hlast,
      List.take_of_length_le hle, List.drop_of_length_le hle, chunks_nil]
  | cons l full ih =>
    obtain ⟨hl, hfull⟩ := List.forall_mem_cons.mp hfull
    rw [List.flatten_cons, List.append_assoc, chunks_of_ne_nil w (by simp [hlast]),
      List.take_left' hl, List.drop_left' hl, ih hfull, List.cons_append]

/-- There is no other way to set a piece in lines. -/
theorem fills_iff : Fills (max w 1) s ls ↔ ls = wrapSegment w s := by
  constructor
  · rintro (_ | ⟨hfull, hlast, hle⟩)
    · rfl
    · rw [wrapSegment, if_neg (by simp [hlast]), chunks_of_full hfull hlast hle]
  · rintro rfl
    exact fills_wrapSegment w s

/-! ### The pieces between newlines -/

def lastSegment (t : Text) : Text := (segments t).getLastD []

theorem intercalate_consHead (sep : Text) (c : Char) {ss : List Text} (h : ss ≠ []) :
    sep.intercalate (consHead c ss) = c :: sep.intercalate ss := by
  match ss with
  | [] => exact absurd rfl h
  | [s] => rfl
  | s :: s' :: ss => rfl

theorem intercalate_pieces (sep : Char) (t : Text) : [sep].intercalate (pieces sep t) = t := by
  induction t with
  | nil => rfl
  | cons c t ih =>
    rw [pieces]
    split
    · next h =>
      obtain ⟨s, ss, hs⟩ := List.exists_cons_of_ne_nil (pieces_ne_nil sep t)
      rw [hs] at ih ⊢
      rw [h, ← ih]
      rfl
    · rw [intercalate_consHead _ _ (pieces_ne_nil sep t), ih]

theorem not_mem_of_mem_pieces {sep : Char} (h : s ∈ pieces sep t) : sep ∉ s := by
  intro hsep
  have hmem : sep ∈ (pieces sep t).flatten := List.mem_flatten.mpr ⟨s, h, hsep⟩
  rw [flatten_pieces, List.mem_filter] at hmem
  simp at hmem

theorem pieces_of_not_mem {sep : Char} (h : sep ∉ t) : pieces sep t = [t] := by
  induction t with
  | nil => rfl
  | cons c t ih =>
    rw [List.mem_cons, not_or] at h
    rw [pieces, if_neg (Ne.symm h.1), ih h.2]
    rfl

/-- What is added to a text without a newline belongs to its last piece. -/
theorem segments_append (h : '\n' ∉ t) (u : Text) :
    segments (u ++ t) = (segments u).dropLast ++ [lastSegment u ++ t] := by
  induction u with
  | nil =>
    rw [List.nil_append, segments, pieces_of_not_mem h]
    rfl
  | cons c u ih =>
    obtain ⟨s, ss, hu⟩ := List.exists_cons_of_ne_nil (pieces_ne_nil '\n' u)
    simp only [segments, lastSegment, List.cons_append, pieces, hu] at ih ⊢
    rw [ih]
    split
    · simp
    · cases ss <;> simp [consHead]

/-! ### Whole texts -/

theorem wrap_eq_iff : ls = wrap t w ↔
    ∃ groups, ls = groups.flatten ∧ List.Forall₂ (Fills (max w 1)) (segments t) groups := by
  have hfills : Fills (max w 1) = fun s g => wrapSegment w s = g := by
    funext s g
    exact propext (fills_iff.trans eq_comm)
  have hgroups : ∀ groups, List.Forall₂ (Fills (max w 1)) (segments t) groups ↔
      (segments t).map (wrapSegment w) = groups := by
    intro groups
    rw [hfills, ← List.forall₂_map_left_iff (R := Eq), List.forall₂_eq_eq_eq]
  simp only [hgroups, exists_eq_right', wrap, List.flatMap_def]

theorem wrap_append (h : '\n' ∉ t) (u : Text) (w : Nat) : wrap (u ++ t) w =
    (segments u).dropLast.flatMap (wrapSegment w) ++ wrapSegment w (lastSegment u ++ t) := by
  rw [wrap, segments_append h, List.flatMap_append, List.flatMap_singleton]

theorem fills_wrap (h : '\n' ∉ t) (w : Nat) : Fills (max w 1) t (wrap t w) := by
  rw [wrap, segments, pieces_of_not_mem h, List.flatMap_singleton]
  exact fills_wrapSegment w t

theorem lastSegment_append (h : '\n' ∉ t) (u : Text) :
    lastSegment (u ++ t) = lastSegment u ++ t := by
  rw [lastSegment, segments_append h, List.getLastD_concat]

theorem length_le_of_mem_wrap {l : Text} (h : l ∈ wrap t w) : l.length ≤ max w 1 := by
  obtain ⟨s, -, hl⟩ := List.mem_flatMap.mp h
  exact (fills_wrapSegment w s).length_le hl

theorem length_wrap (t : Text) (w : Nat) : (wrap t w).length =
    ((segments t).map fun s => max 1 ((s.length + max w 1 - 1) / max w 1)).sum := by
  rw [wrap, List.length_flatMap]
  congr 1
  exact List.map_congr_left fun s _ => (fills_wrapSegment w s).length_eq (by omega)

/-- A text is wrapped in exactly one way: piece by piece, where the pieces are what stands between
its newlines. So its lines fit the width and hold no newline, nothing but the newlines is lost, and
each piece takes as many lines as its characters need. -/
theorem wrap_fills (t : Text) (width : Nat) :
    let w := max width 1
    (['\n'].intercalate (segments t) = t ∧ ∀ s ∈ segments t, '\n' ∉ s) ∧
      (∀ ls, ls = wrap t width ↔
        ∃ groups, ls = groups.flatten ∧ List.Forall₂ (Fills w) (segments t) groups) ∧
      (∀ l ∈ wrap t width, l.length ≤ w ∧ '\n' ∉ l) ∧
      (wrap t width).flatten = t.filter (· ≠ '\n') ∧
      (wrap t width).length =
        ((segments t).map fun s => max 1 ((s.length + w - 1) / w)).sum :=
  ⟨⟨intercalate_pieces '\n' t, fun _ hs => not_mem_of_mem_pieces hs⟩, fun _ => wrap_eq_iff,
    fun _ hl => ⟨length_le_of_mem_wrap hl, not_mem_of_mem_wrap hl⟩, flatten_wrap t width,
    length_wrap t width⟩

end StorageClient.Text
