import Mathlib.Data.Nat.Dist
import StorageClient.Proofs.Editor.LineWidth

/-!
How far a window scrolls. It goes to the nearest place at which the row is in view and no row is
wasted below the last line, wherever it stood before. So a move of the cursor scrolls by a row at
most.
-/

namespace StorageClient

/-- `v'` shows `row`, and the window would have to go farther from `v` for every other scroll that
does. -/
structure Viewport.Nearest (v v' : Viewport) (row n : Nat) : Prop where
  shows : v'.Shows row n
  dist_lt : ∀ scroll, { v' with scroll := scroll }.Shows row n → scroll ≠ v'.scroll →
    Nat.dist v.scroll v'.scroll < Nat.dist v.scroll scroll

namespace Viewport

variable {v v' : Viewport} {row n : Nat}

theorem dist_clamp_lt {low high x y : Nat} (hlow : low ≤ y) (hhigh : y ≤ high)
    (hne : y ≠ max low (min x high)) : Nat.dist x (max low (min x high)) < Nat.dist x y := by
  simp only [Nat.dist]
  omega

/-- A scroll brought between the two ends of a range is nearest to where it was. -/
theorem nearest_of_scroll_eq (hrow : row < n)
    (hscroll : v'.scroll = max (row + 1 - v'.height) (min v.scroll (min row (n - v'.height)))) :
    v.Nearest v' row n := by
  have hpos := v'.height_pos
  constructor
  · rw [shows_iff]
    omega
  · intro scroll hshows hne
    obtain ⟨hlow, hhigh⟩ := shows_iff.mp hshows
    rw [hscroll] at hne ⊢
    exact dist_clamp_lt hlow hhigh hne

/-- No sum overflows in a window that shows a row, whichever row it is to follow. -/
theorem Shows.sum_le (h : v.Shows row n) (hheight : v.height < Word.size64) (row' : Nat) :
    v.scroll + v.height ≤ max row' n + 1 ∨ v.scroll + v.height < Word.size64 := by
  obtain ⟨-, -, hscroll⟩ := h
  omega

theorem follow_of_shows (hrow : row < n) (hheight : v.height < Word.size64) (h : v.Shows row n) :
    v.follow row n = .ok v := by
  have hscroll : max (row + 1 - v.height) (min v.scroll (min row (n - v.height))) = v.scroll := by
    rw [shows_iff] at h
    omega
  rw [follow_eq hrow (h.sum_le hheight row), hscroll]

theorem exists_nearest_follow (hrow : row < n) (hsum : v.scroll + v.height < Word.size64) :
    ∃ v', v.follow row n = .ok v' ∧ v'.height = v.height ∧ v.Nearest v' row n :=
  ⟨_, follow_eq hrow (.inr hsum), rfl, nearest_of_scroll_eq hrow rfl⟩

/-- The scroll is first brought back into range, which leaves it on its side of the nearest one. -/
theorem exists_nearest_resize (v : Viewport) (hrow : row < n) {height : Nat}
    (hheight : height < Word.size64) :
    ∃ v', v.resize height row n = .ok v' ∧ v'.height = max height 1 ∧ v.Nearest v' row n := by
  have hone : 1 < Word.size64 := by decide
  have hfollow := follow_eq
    (v := ⟨min v.scroll (n - max height 1), max height 1, Word.max_one_pos height⟩) hrow
    (by dsimp only; omega)
  refine ⟨_, hfollow, rfl, nearest_of_scroll_eq hrow ?_⟩
  dsimp only
  omega

end Viewport

/-- Every step goes to a line next to the cursor's or stays in it. -/
theorem Cursor.dist_row_moved {b : Buffer} {c c' : Cursor} (hr : c.row < b.count) (d : Direction)
    (h : c.moved d b = .ok c') : Nat.dist c.row c'.row ≤ 1 := by
  have hsame : Nat.dist c.row c.row ≤ 1 := by simp
  have hnext : Nat.dist c.row (c.row + 1) ≤ 1 := by simp [Nat.dist]
  have hprev : Nat.dist c.row (c.row - 1) ≤ 1 := by
    simp only [Nat.dist]
    omega
  cases d with
  | left =>
    simp only [moved] at h
    split at h
    · cases h
      exact hsame
    · split at h
      · cases h
        exact hprev
      · cases h
        exact hsame
  | right =>
    rw [moved_right_eq hr] at h
    cases h
    split
    · exact hsame
    · split
      · exact hnext
      · exact hsame
  | up =>
    simp only [moved] at h
    split at h
    · cases h
      exact hprev
    · cases h
      exact hsame
  | down =>
    rw [moved_down_eq hr] at h
    cases h
    split
    · exact hnext
    · exact hsame

namespace Session

def scrolled (s s' : Session) : Nat := Nat.dist s.viewport.scroll s'.viewport.scroll

theorem Sound.height_lt {s : Session} (h : s.Sound) : s.viewport.height < Word.size64 :=
  Nat.lt_of_le_of_lt h.height_le (by decide)

theorem Sound.move_scrolled {s : Session} (h : s.Sound) (d : Direction) :
    ∃ s', s.move d = .ok s' ∧ s.scrolled s' ≤ 1 := by
  obtain ⟨c, hc, hp⟩ := Cursor.moved_spec h.row_lt h.col_le d
  have hdist := Cursor.dist_row_moved h.row_lt d hc
  have hrow : c.row < s.buffer.count := hp.row_lt
  have hshows := h.shows
  obtain ⟨v, hv, hscroll⟩ : ∃ v, s.viewport.follow c.row s.buffer.count = .ok v ∧
      v.scroll = max (c.row + 1 - s.viewport.height)
        (min s.viewport.scroll (min c.row (s.buffer.count - s.viewport.height))) :=
    ⟨_, Viewport.follow_eq hrow (hshows.sum_le h.height_lt c.row), rfl⟩
  have hmove : s.move d = .ok { s with cursor := c, viewport := v } := by
    rw [move, hc]
    simp only [bind, Except.bind, follow, Cursor.isWithin_of_pointsAt hp, if_true, hv, pure,
      Except.pure]
  refine ⟨_, hmove, ?_⟩
  rw [Viewport.shows_iff] at hshows
  simp only [scrolled, Nat.dist] at hdist ⊢
  omega

theorem Sound.apply_move_scrolled {s : Session} (h : s.Sound) (d : Direction) :
    ∃ s' x, s.apply (.move d) = .ok (s', x) ∧ s.scrolled s' ≤ 1 := by
  refine onText_spec (fun _ => h.move_scrolled d) fun _ _ => ?_
  simp [scrolled, Nat.dist_self]

end Session

/-- A window follows a row to the nearest scroll at which it shows the row and wastes none of its
own, wherever it stood, and a window of a new height does the same. There always is such a scroll.
So to follow once more changes nothing, and neither does following a row that is in view. In a
session a move never scrolls by more than one row. -/
theorem Viewport.follow_nearest {v : Viewport} {row n : Nat} (hrow : row < n)
    (hsum : v.scroll + v.height < Word.size64) :
    (∃ v', v.follow row n = .ok v' ∧ v'.height = v.height ∧ v.Nearest v' row n ∧
      v'.follow row n = .ok v' ∧ (v.Shows row n → v' = v)) ∧
    (∀ height < Word.size64, ∃ v', v.resize height row n = .ok v' ∧ v'.height = max height 1 ∧
      v.Nearest v' row n) ∧
    ∀ content g cs, g.window.height ≤ Word.max16 → (∀ c ∈ cs, Session.Change.Possible c) →
      ∃ ss, (Session.start content g).course cs = .ok ss ∧ ∀ s ∈ ss, ∀ d,
        (∃ s', s.move d = .ok s' ∧ s.scrolled s' ≤ 1) ∧
          ∃ s' x, s.apply (.move d) = .ok (s', x) ∧ s.scrolled s' ≤ 1 := by
  have hheight : v.height < Word.size64 := by omega
  refine ⟨?_, fun height => exists_nearest_resize v hrow, fun content g cs hg hcs => ?_⟩
  · obtain ⟨v', hv', heq, hnearest⟩ := exists_nearest_follow hrow hsum
    refine ⟨v', hv', heq, hnearest, follow_of_shows hrow (heq ▸ hheight) hnearest.shows, ?_⟩
    intro hshows
    have hsame := follow_of_shows hrow hheight hshows
    exact Except.ok.inj (hv'.symm.trans hsame)
  · obtain ⟨ss, hss, hsound⟩ := Session.course_start_sound content hg hcs
    exact ⟨ss, hss, fun s hs d => ⟨(hsound s hs).move_scrolled d, (hsound s hs).apply_move_scrolled d⟩⟩

/-- A window that a text which has lost its lines has left beyond its end. -/
def Viewport.stranded : Viewport := ⟨9, 2, by decide⟩

theorem Viewport.follow_nearest_stranded :
    1 < 4 ∧ stranded.scroll + stranded.height < Word.size64 ∧
      ∃ v', stranded.follow 1 4 = .ok v' ∧ stranded.Nearest v' 1 4 ∧ v'.scroll = 1 := by
  have hrow : 1 < 4 := by decide
  have hsum : stranded.scroll + stranded.height < Word.size64 := by decide
  obtain ⟨⟨v', hv', -, hnearest, -⟩, -⟩ := follow_nearest hrow hsum
  have hscroll : (stranded.follow 1 4).map (·.scroll) = .ok 1 := by decide
  rw [hv'] at hscroll
  exact ⟨hrow, hsum, v', hv', hnearest, Except.ok.inj hscroll⟩

end StorageClient
