import StorageClient.Text.Utf8

/-!
Newlines and lenient decoding. A newline byte is a newline wherever it stands, also behind a
character that was left unfinished, and no other bytes decode to one.
-/

namespace StorageClient.Utf8

/-- The next byte of an unfinished character is no ASCII byte, and what is left of it spells no
control character. -/
def State.Multibyte : State → Prop
  | .idle => True
  | .inside bits _ low high => 0x80 ≤ low ∧ high ≤ 0xBF ∧ 0x10 ≤ bits * 64 + (low - 0x80)

theorem first_multibyte (b : Nat) : (first b).2.Multibyte := by
  unfold first
  repeat' split
  all_goals simp only [State.Multibyte]
  all_goals omega

theorem next_multibyte {s : State} (h : s.Multibyte) (b : Nat) : (next s b).2.Multibyte := by
  cases s with
  | idle => exact first_multibyte b
  | inside bits left low high =>
    obtain ⟨hlow, hhigh, hbits⟩ := h
    by_cases hb : low ≤ b ∧ b ≤ high
    · by_cases hleft : left ≤ 1
      · simp [next, hb, hleft, State.Multibyte]
      · simp only [next, hb, hleft, and_self, if_true, if_false, State.Multibyte]
        omega
    · simp only [next, if_neg hb]
      exact first_multibyte b

theorem ofNat_ne_newline {n : Nat} (h : n ≠ 10) : Char.ofNat n ≠ '\n' := by
  intro hc
  have hv := congrArg Char.toNat hc
  by_cases hn : n.isValidChar
  · rw [Char.ofNat, dif_pos hn] at hv
    exact h hv
  · rw [Char.ofNat, dif_neg hn] at hv
    cases hv

theorem newline_not_mem_first {b : Nat} (hb : b ≠ 10) : some '\n' ∉ (first b).1 := by
  have hchar := ofNat_ne_newline hb
  unfold first
  repeat' split
  all_goals simp [hchar.symm]

theorem newline_not_mem_next {s : State} (h : s.Multibyte) {b : Nat} (hb : b ≠ 10) :
    some '\n' ∉ (next s b).1 := by
  cases s with
  | idle => exact newline_not_mem_first hb
  | inside bits left low high =>
    obtain ⟨hlow, hhigh, hbits⟩ := h
    by_cases hin : low ≤ b ∧ b ≤ high
    · have hchar : Char.ofNat (bits * 64 + b % 64) ≠ '\n' := ofNat_ne_newline (by omega)
      by_cases hleft : left ≤ 1
      · simp [next, hin, hleft, hchar.symm]
      · simp [next, hin, hleft]
    · simp [next, hin, newline_not_mem_first hb]

theorem newline_not_mem_scan {s : State} (h : s.Multibyte) {bs : List UInt8} (hb : 10 ∉ bs) :
    some '\n' ∉ scan s bs := by
  induction bs generalizing s with
  | nil => cases s <;> simp [scan]
  | cons b bs ih =>
    rw [List.mem_cons, not_or] at hb
    have hne : b.toNat ≠ 10 := fun heq => hb.1 (UInt8.toNat_inj.1 heq).symm
    rw [scan, List.mem_append, not_or]
    exact ⟨newline_not_mem_next h hne, ih (next_multibyte h b.toNat) hb.2⟩

/-- Bytes without a newline decode to a text without one. -/
theorem newline_not_mem_decodeLossy {bs : List UInt8} (h : 10 ∉ bs) : '\n' ∉ decodeLossy bs := by
  intro hmem
  obtain ⟨o, ho, hc⟩ := List.mem_map.1 hmem
  cases o with
  | none => exact absurd hc (by decide)
  | some c =>
    obtain rfl : c = '\n' := hc
    exact newline_not_mem_scan (s := .idle) trivial h ho

theorem scan_append_newline {s : State} (h : s.Multibyte) (bs : List UInt8) :
    scan s (bs ++ [10]) = scan s bs ++ [some '\n'] := by
  induction bs generalizing s with
  | nil =>
    cases s with
    | idle => rfl
    | inside bits left low high =>
      -- A newline continues no character, so it ends this one and stands for itself.
      have hout : ¬ (low ≤ 10 ∧ 10 ≤ high) := fun hin => by
        have hlow := h.1
        omega
      have hnext : next (.inside bits left low high) 10 = ([none, some '\n'], .idle) := by
        simp [next, hout, first]
      change (next (.inside bits left low high) 10).1 ++
        scan (next (.inside bits left low high) 10).2 [] = _
      rw [hnext]
      rfl
  | cons b bs ih =>
    simp only [List.cons_append, scan, ih (next_multibyte h b.toNat), List.append_assoc]

theorem decodeLossy_append_newline (bs : List UInt8) :
    decodeLossy (bs ++ [10]) = decodeLossy bs ++ ['\n'] := by
  rw [decodeLossy, scan_append_newline (s := .idle) trivial bs, List.map_append]
  rfl

end StorageClient.Utf8
