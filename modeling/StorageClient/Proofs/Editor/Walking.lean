import Mathlib.Algebra.GroupWithZero.Nat
import Mathlib.Data.List.Flatten
import Mathlib.Logic.ExistsUnique
import StorageClient.Proofs.Editor.Moves

/-!
The places of a buffer in reading order. Each has a rank, which counts the characters and the line
ends before it. A step to the right goes to the place of the next rank, one to the left to that of
the rank before, so that a walk to the right comes to every place once.
-/

namespace StorageClient

namespace Cursor

/-- Reading order: by rows, and in a row by columns. -/
def Before (c d : Cursor) : Prop := c.row < d.row ∨ c.row = d.row ∧ c.col < d.col

def walk (c : Cursor) (b : Buffer) : List Direction → Except Fault Cursor
  | [] => .ok c
  | d :: ds => do (← c.moved d b).walk b ds

end Cursor

namespace Buffer

structure Adjoins (b : Buffer) (c d : Cursor) : Prop where
  left : c.isWithin b = true
  right : d.isWithin b = true
  before : c.Before d
  nothing_between : ∀ e, e.isWithin b = true → c.Before e → ¬ e.Before d

def lastPlace (b : Buffer) : Cursor := ⟨b.count - 1, b.lineLength (b.count - 1)⟩

/-- The number of places before a cursor. A line has one more than it has characters. -/
def rank (b : Buffer) (c : Cursor) : Nat := b.offset c + c.row

variable {b : Buffer} {c d : Cursor}

/-! ### Ranks -/

theorem rank_start (b : Buffer) : b.rank ⟨0, 0⟩ = 0 := by simp [rank, offset]

theorem rank_col_succ (b : Buffer) (row col : Nat) :
    b.rank ⟨row, col + 1⟩ = b.rank ⟨row, col⟩ + 1 := by
  simp only [rank, offset]
  omega

theorem rank_row_succ {row : Nat} (hrow : row < b.count) :
    b.rank ⟨row + 1, 0⟩ = b.rank ⟨row, b.lineLength row⟩ + 1 := by
  obtain ⟨l, hl⟩ := Cursor.exists_line hrow
  have hoff := Cursor.offset_row_succ hl
  rw [Cursor.lineLength_of_line hl]
  simp only [rank, hoff]
  omega

theorem rank_start_le {row row' : Nat} (h : row ≤ row') : b.rank ⟨row, 0⟩ ≤ b.rank ⟨row', 0⟩ := by
  have hlen : (b.lines.take row).flatten.length ≤ (b.lines.take row').flatten.length := by
    have hsub := (List.take_sublist_take_left h (l := b.lines)).flatten
    exact hsub.length_le
  simp only [rank, offset]
  omega

theorem rank_lt_of_row_lt (hc : c.isWithin b = true) (h : c.row < d.row) :
    b.rank c < b.rank d := by
  obtain ⟨hrow, hcol⟩ := Cursor.isWithin_iff.mp hc
  have hnext := rank_row_succ hrow
  have hstart := rank_start_le (b := b) (show c.row + 1 ≤ d.row from h)
  simp only [rank, offset] at hnext hstart ⊢
  omega

theorem before_iff_rank_lt (hc : c.isWithin b = true) (hd : d.isWithin b = true) :
    c.Before d ↔ b.rank c < b.rank d := by
  rcases Nat.lt_trichotomy c.row d.row with h | h | h
  · exact ⟨fun _ => rank_lt_of_row_lt hc h, fun _ => .inl h⟩
  · simp only [Cursor.Before, rank, offset, h, Nat.lt_irrefl, true_and, false_or]
    omega
  · have hlt := rank_lt_of_row_lt hd h
    simp only [Cursor.Before]
    omega

theorem eq_of_rank_eq (hc : c.isWithin b = true) (hd : d.isWithin b = true)
    (h : b.rank c = b.rank d) : c = d := by
  have hcd : ¬ c.Before d := by
    rw [before_iff_rank_lt hc hd]
    omega
  have hdc : ¬ d.Before c := by
    rw [before_iff_rank_lt hd hc]
    omega
  obtain ⟨row, col⟩ := c
  obtain ⟨row', col'⟩ := d
  simp only [Cursor.Before] at hcd hdc
  obtain ⟨rfl, rfl⟩ : row = row' ∧ col = col' := by omega
  rfl

theorem adjoins_of_rank_eq (hc : c.isWithin b = true) (hd : d.isWithin b = true)
    (h : b.rank d = b.rank c + 1) : b.Adjoins c d := by
  refine ⟨hc, hd, ?_, fun e he hce hed => ?_⟩
  · rw [before_iff_rank_lt hc hd]
    omega
  · rw [before_iff_rank_lt hc he] at hce
    rw [before_iff_rank_lt he hd] at hed
    omega

/-! ### The first place and the last -/

theorem isWithin_start (hb : 0 < b.count) : Cursor.isWithin ⟨0, 0⟩ b = true :=
  Cursor.isWithin_iff.mpr ⟨hb, Nat.zero_le _⟩

theorem isWithin_lastPlace (hb : 0 < b.count) : b.lastPlace.isWithin b = true := by
  rw [Cursor.isWithin_iff]
  refine ⟨?_, Nat.le_refl _⟩
  simp only [lastPlace]
  omega

theorem rank_lastPlace (hb : 0 < b.count) :
    b.rank b.lastPlace = (b.lines.map List.length).sum + b.count - 1 := by
  have hlast : b.rank ⟨b.count - 1 + 1, 0⟩ = b.rank b.lastPlace + 1 := rank_row_succ (by omega)
  have hall : b.rank ⟨b.count, 0⟩ = (b.lines.map List.length).sum + b.count := by
    simp [rank, offset, count, List.length_flatten]
  rw [Nat.sub_add_cancel hb] at hlast
  omega

theorem rank_le_lastPlace (hc : c.isWithin b = true) : b.rank c ≤ b.rank b.lastPlace := by
  obtain ⟨hrow, hcol⟩ := Cursor.isWithin_iff.mp hc
  by_cases hlast : c.row = b.count - 1
  · rw [hlast] at hcol
    simp only [rank, offset, lastPlace, hlast]
    omega
  · refine Nat.le_of_lt (rank_lt_of_row_lt hc ?_)
    simp only [lastPlace]
    omega

/-! ### Steps -/

theorem moved_right_of_isWithin (hc : c.isWithin b = true) :
    ∃ d, c.moved .right b = .ok d ∧ d.isWithin b = true ∧
      (c = b.lastPlace ∧ d = c ∨ c ≠ b.lastPlace ∧ b.rank d = b.rank c + 1) := by
  obtain ⟨hrow, hcol⟩ := Cursor.isWithin_iff.mp hc
  refine ⟨_, Cursor.moved_right_eq hrow, ?_⟩
  obtain ⟨row, col⟩ := c
  dsimp only at hrow hcol ⊢
  split
  · next hlt =>
    refine ⟨Cursor.isWithin_iff.mpr ⟨hrow, hlt⟩, .inr ⟨?_, rank_col_succ b row col⟩⟩
    intro hlast
    obtain ⟨rfl, rfl⟩ := Cursor.mk.inj hlast
    exact Nat.lt_irrefl _ hlt
  · next hge =>
    obtain rfl : col = b.lineLength row := Nat.le_antisymm hcol (Nat.not_lt.mp hge)
    split
    · next hlt =>
      refine ⟨Cursor.isWithin_iff.mpr ⟨hlt, Nat.zero_le _⟩, .inr ⟨?_, rank_row_succ hrow⟩⟩
      intro hlast
      have hrow' : row = b.count - 1 := (Cursor.mk.inj hlast).1
      omega
    · have hlast : row = b.count - 1 := by omega
      refine ⟨hc, .inl ⟨?_, rfl⟩⟩
      rw [lastPlace, ← hlast]

theorem moved_left_of_isWithin (hc : c.isWithin b = true) :
    ∃ d, c.moved .left b = .ok d ∧ d.isWithin b = true ∧
      (c = ⟨0, 0⟩ ∧ d = c ∨ c ≠ ⟨0, 0⟩ ∧ b.rank c = b.rank d + 1) := by
  obtain ⟨hrow, hcol⟩ := Cursor.isWithin_iff.mp hc
  obtain ⟨row, col⟩ := c
  cases col with
  | succ col =>
    refine ⟨⟨row, col⟩, by simp [Cursor.moved], Cursor.isWithin_iff.mpr ⟨hrow, ?_⟩, .inr ⟨by simp, ?_⟩⟩
    · exact Nat.le_of_succ_le hcol
    · exact rank_col_succ b row col
  | zero =>
    cases row with
    | zero => exact ⟨⟨0, 0⟩, by simp [Cursor.moved], hc, .inl ⟨rfl, rfl⟩⟩
    | succ row =>
      have hrow' : row < b.count := Nat.lt_of_succ_lt hrow
      refine ⟨⟨row, b.lineLength row⟩, by simp [Cursor.moved], ?_, .inr ⟨by simp, ?_⟩⟩
      · exact Cursor.isWithin_iff.mpr ⟨hrow', Nat.le_refl _⟩
      · exact rank_row_succ hrow'

/-- A step to the right goes to the next place, and one to the left back. -/
theorem moved_right_adjoins (hc : c.isWithin b = true) :
    ∃ d, c.moved .right b = .ok d ∧ (d = c ↔ c = b.lastPlace) ∧
      (c ≠ b.lastPlace → b.Adjoins c d ∧ d.moved .left b = .ok c) := by
  obtain ⟨d, hd, hwithin, ⟨hlast, rfl⟩ | ⟨hlast, hrank⟩⟩ := moved_right_of_isWithin hc
  · exact ⟨d, hd, by simp [hlast], fun hne => absurd hlast hne⟩
  · refine ⟨d, hd, ⟨?_, fun h => absurd h hlast⟩, fun _ => ⟨adjoins_of_rank_eq hc hwithin hrank, ?_⟩⟩
    · rintro rfl
      omega
    · obtain ⟨c', hc', hwithin', ⟨rfl, -⟩ | ⟨-, hrank'⟩⟩ := moved_left_of_isWithin hwithin
      · rw [rank_start] at hrank
        omega
      · have hback : c' = c := eq_of_rank_eq hwithin' hc (by omega)
        rw [hc', hback]

theorem moved_left_adjoins (hc : c.isWithin b = true) :
    ∃ d, c.moved .left b = .ok d ∧ (d = c ↔ c = ⟨0, 0⟩) ∧
      (c ≠ ⟨0, 0⟩ → b.Adjoins d c ∧ d.moved .right b = .ok c) := by
  obtain ⟨d, hd, hwithin, ⟨hfirst, rfl⟩ | ⟨hfirst, hrank⟩⟩ := moved_left_of_isWithin hc
  · exact ⟨d, hd, by simp [hfirst], fun hne => absurd hfirst hne⟩
  · refine ⟨d, hd, ⟨?_, fun h => absurd h hfirst⟩, fun _ => ⟨adjoins_of_rank_eq hwithin hc hrank, ?_⟩⟩
    · rintro rfl
      omega
    · obtain ⟨c', hc', hwithin', ⟨rfl, -⟩ | ⟨-, hrank'⟩⟩ := moved_right_of_isWithin hwithin
      · have hle := rank_le_lastPlace hc
        omega
      · have hback : c' = c := eq_of_rank_eq hwithin' hc (by omega)
        rw [hc', hback]

/-! ### Walks -/

/-- A walk to the right goes up by one rank with every step. -/
theorem walk_right_of_le (hc : c.isWithin b = true) {k : Nat}
    (hk : b.rank c + k ≤ b.rank b.lastPlace) :
    ∃ d, c.walk b (List.replicate k .right) = .ok d ∧ d.isWithin b = true ∧
      b.rank d = b.rank c + k := by
  induction k generalizing c with
  | zero => exact ⟨c, rfl, hc, rfl⟩
  | succ k ih =>
    obtain ⟨c₁, hc₁, hwithin, ⟨rfl, -⟩ | ⟨-, hrank⟩⟩ := moved_right_of_isWithin hc
    · omega
    · obtain ⟨d, hd, hwithin', hrank'⟩ := ih hwithin (by omega)
      refine ⟨d, ?_, hwithin', by omega⟩
      rw [List.replicate_succ, Cursor.walk, hc₁]
      exact hd

/-- To the right and left a cursor goes from place to place in reading order, and back. It stays
only at the last place and at the first, and no step leaves the places of the buffer. From the first
place a walk to the right comes to every place exactly once, and to the last one at its end. -/
theorem walk_right_visits (hb : 0 < b.count) :
    (∀ c : Cursor, c.isWithin b = true → c = b.lastPlace ∨ c.Before b.lastPlace) ∧
    (∀ c : Cursor, c.isWithin b = true → ∃ d, c.moved .right b = .ok d ∧ (d = c ↔ c = b.lastPlace) ∧
      (c ≠ b.lastPlace → b.Adjoins c d ∧ d.moved .left b = .ok c)) ∧
    (∀ c : Cursor, c.isWithin b = true → ∃ d, c.moved .left b = .ok d ∧ (d = c ↔ c = ⟨0, 0⟩) ∧
      (c ≠ ⟨0, 0⟩ → b.Adjoins d c ∧ d.moved .right b = .ok c)) ∧
    (∀ c : Cursor, c.isWithin b = true → ∀ dir, ∃ d, c.moved dir b = .ok d ∧ d.isWithin b = true) ∧
    let n := (b.lines.map List.length).sum + b.count - 1
    let visit := fun k => Cursor.walk ⟨0, 0⟩ b (List.replicate k .right)
    visit n = .ok b.lastPlace ∧
      (∀ k ≤ n, ∃ c, visit k = .ok c ∧ c.isWithin b = true) ∧
      ∀ c : Cursor, c.isWithin b = true → ∃! k, k ≤ n ∧ visit k = .ok c := by
  have hlast := isWithin_lastPlace hb
  refine ⟨fun c hc => ?_, fun c hc => moved_right_adjoins hc, fun c hc => moved_left_adjoins hc,
    fun c hc dir => ?_, ?_⟩
  · have hle := rank_le_lastPlace hc
    rw [before_iff_rank_lt hc hlast]
    rcases Nat.eq_or_lt_of_le hle with heq | hlt
    · exact .inl (eq_of_rank_eq hc hlast heq)
    · exact .inr hlt
  · obtain ⟨hrow, hcol⟩ := Cursor.isWithin_iff.mp hc
    obtain ⟨d, hd, hp⟩ := Cursor.moved_spec hrow hcol dir
    exact ⟨d, hd, Cursor.isWithin_of_pointsAt hp⟩
  · intro n visit
    have hn : b.rank b.lastPlace = n := rank_lastPlace hb
    -- The place that the walk has come to is told by its rank, the number of steps so far.
    have hvisit : ∀ k ≤ n, ∃ c, visit k = .ok c ∧ c.isWithin b = true ∧ b.rank c = k := by
      intro k hk
      obtain ⟨c, hc, hwithin, hrank⟩ := walk_right_of_le (isWithin_start hb) (k := k)
        (by rw [rank_start]; omega)
      rw [rank_start, Nat.zero_add] at hrank
      exact ⟨c, hc, hwithin, hrank⟩
    have hcomes : ∀ c : Cursor, c.isWithin b = true → visit (b.rank c) = .ok c := by
      intro c hc
      obtain ⟨c', hc', hwithin, hrank⟩ := hvisit (b.rank c) (hn ▸ rank_le_lastPlace hc)
      rw [hc', eq_of_rank_eq hwithin hc hrank]
    refine ⟨hn ▸ hcomes _ hlast, fun k hk => ?_, fun c hc => ?_⟩
    · obtain ⟨c, hc, hwithin, -⟩ := hvisit k hk
      exact ⟨c, hc, hwithin⟩
    · refine ⟨b.rank c, ⟨hn ▸ rank_le_lastPlace hc, hcomes c hc⟩, ?_⟩
      rintro k ⟨hk, hkc⟩
      obtain ⟨c', hc', -, hrank⟩ := hvisit k hk
      obtain rfl : c' = c := Except.ok.inj (hc'.symm.trans hkc)
      exact hrank.symm

def uneven : Buffer := ⟨["ab".toList, [], "c".toList], 5, by decide⟩

theorem walk_right_visits_uneven :
    0 < uneven.count ∧
      Cursor.walk ⟨0, 0⟩ uneven (List.replicate 5 .right) = .ok ⟨2, 1⟩ ∧
      ∃! k, k ≤ 5 ∧ Cursor.walk ⟨0, 0⟩ uneven (List.replicate k .right) = .ok ⟨1, 0⟩ := by
  have hb : 0 < uneven.count := by decide
  obtain ⟨-, -, -, -, hend, -, hunique⟩ := walk_right_visits hb
  exact ⟨hb, hend, hunique ⟨1, 0⟩ (by decide)⟩

end Buffer

end StorageClient
