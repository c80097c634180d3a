import StorageClient.Proofs.Screen.Drawable

/-!
The read-only view over whole runs. It always shows a full window of the lines of its content, or
all of them if there are fewer. A new window only moves the row that the view starts at, and no row
is out of reach.
-/

namespace StorageClient

def Geometry.after (g : Geometry) : List Event → Geometry
  | [] => g
  | .resize w h :: es => (ofTerminal w h).after es
  | _ :: es => g.after es

theorem height_after_le {g : Geometry} (hg : g.window.height ≤ Word.max16) (es : List Event) :
    (g.after es).window.height ≤ Word.max16 := by
  induction es generalizing g with
  | nil => exact hg
  | cons e es ih =>
    cases e with
    | resize w h => exact ih (Geometry.height_ofTerminal_le w h)
    | _ => exact ih hg

namespace Reader

/-- The view after an event, and whether the event closes it. A view that is closed is still
there. -/
def react (r : Reader) : Event → Reader × Bool
  | .resize w h => (r.resize (.ofTerminal w h), false)
  | .key k =>
    match k.code with
    | .enter | .esc => (r, true)
    | .up => (r.scrollBy (-1), false)
    | .down => (r.scrollBy 1, false)
    | _ => (r, false)
  | _ => (r, false)

/-- The view after events, also after those that close it. -/
def run (r : Reader) : List Event → Reader
  | [] => r
  | e :: es => (r.react e).1.run es

def atRow (r : Reader) (n : Nat) : Reader := { r with viewport := { r.viewport with scroll := n } }

/-- The row to start at so that the last line is the last one in view. -/
def lastStart (r : Reader) : Nat := r.lines.length - r.viewport.height

structure Displays (r : Reader) (sent : Text) : Prop where
  eq_start : r = (start sent r.geometry).atRow r.viewport.scroll
  scroll_le : r.viewport.scroll ≤ r.lastStart

variable {r : Reader} {sent : Text}

theorem handle_eq (r : Reader) (e : Event) :
    r.handle e = if (r.react e).2 then none else some (r.react e).1 := by
  rcases e with ⟨code, mods, kind⟩ | _ | _ | _ | _
  · cases code <;> rfl
  all_goals rfl

theorem react_closes_iff (r : Reader) (e : Event) :
    (r.react e).2 = true ↔ ∃ k, e = .key k ∧ (k.code = .enter ∨ k.code = .esc) := by
  cases e with
  | key k =>
    simp only [react, Event.key.injEq, exists_eq_left']
    cases k.code <;> simp
  | _ => simp [react]

theorem react_of_closes {e : Event} (h : (r.react e).2 = true) : (r.react e).1 = r := by
  obtain ⟨k, rfl, hk | hk⟩ := (react_closes_iff r e).mp h <;> simp only [react, hk]

theorem Displays.lines_eq (h : r.Displays sent) :
    r.lines = Text.wrap (Escape.expand sent) r.geometry.maxWidth := by
  rw [h.eq_start]
  rfl

theorem Displays.height_eq (h : r.Displays sent) :
    r.viewport.height = r.geometry.visibleHeight := by
  rw [h.eq_start]
  exact Nat.max_eq_left (Geometry.visibleHeight_pos _)

theorem displays_start (sent : Text) (g : Geometry) : (start sent g).Displays sent :=
  ⟨rfl, Nat.zero_le _⟩

theorem Displays.atRow (h : r.Displays sent) {n : Nat} (hn : n ≤ r.lastStart) :
    (r.atRow n).Displays sent := by
  refine ⟨?_, hn⟩
  rw [h.eq_start]
  rfl

/-! ### Single events -/

theorem scrollBy_eq (r : Reader) (d : Int) :
    r.scrollBy d = r.atRow (min (r.viewport.scroll + d).toNat r.lastStart) := rfl

theorem Displays.scrollBy (h : r.Displays sent) (d : Int) : (r.scrollBy d).Displays sent :=
  h.atRow (Nat.min_le_right _ _)

theorem Displays.scrollBy_up (h : r.Displays sent) :
    r.scrollBy (-1) = if r.viewport.scroll = 0 then r else r.atRow (r.viewport.scroll - 1) := by
  have hle := h.scroll_le
  rw [scrollBy_eq]
  split
  · next hzero =>
    have hmin : min ((r.viewport.scroll : Int) + -1).toNat r.lastStart = r.viewport.scroll := by
      omega
    rw [hmin]
    rfl
  · have hmin : min ((r.viewport.scroll : Int) + -1).toNat r.lastStart = r.viewport.scroll - 1 := by
      omega
    rw [hmin]

theorem Displays.scrollBy_down (h : r.Displays sent) :
    r.scrollBy 1 =
      if r.viewport.scroll = r.lastStart then r else r.atRow (r.viewport.scroll + 1) := by
  have hle := h.scroll_le
  rw [scrollBy_eq]
  split
  · next hlast =>
    have hmin : min ((r.viewport.scroll : Int) + 1).toNat r.lastStart = r.viewport.scroll := by
      omega
    rw [hmin]
    rfl
  · have hmin : min ((r.viewport.scroll : Int) + 1).toNat r.lastStart = r.viewport.scroll + 1 := by
      omega
    rw [hmin]

theorem Displays.resize_eq (h : r.Displays sent) (g : Geometry) :
    r.resize g = (start sent g).atRow (min r.viewport.scroll (start sent g).lastStart) := by
  have hcontent : r.content = Escape.expand sent := by
    rw [h.eq_start]
    rfl
  rw [resize, hcontent]
  simp [start, Reader.atRow, Viewport.scrollBy, lastStart, Viewport.maxScroll, Viewport.top]

theorem Displays.resize (h : r.Displays sent) (g : Geometry) : (r.resize g).Displays sent := by
  rw [h.resize_eq g]
  exact (displays_start sent g).atRow (Nat.min_le_right _ _)

/-! ### Runs -/

theorem Displays.react (h : r.Displays sent) (e : Event) : (r.react e).1.Displays sent := by
  cases e with
  | resize w h' => exact h.resize _
  | key k =>
    simp only [Reader.react]
    split
    · exact h
    · exact h
    · exact h.scrollBy (-1)
    · exact h.scrollBy 1
    · exact h
  | paste _ | focus _ | mouse _ _ => exact h

theorem geometry_react (r : Reader) (e : Event) : (r.react e).1.geometry = r.geometry.after [e] := by
  cases e with
  | key k =>
    simp only [Reader.react]
    split <;> rfl
  | _ => rfl

theorem after_cons (g : Geometry) (e : Event) (es : List Event) :
    g.after (e :: es) = (g.after [e]).after es := by
  cases e <;> rfl

theorem Displays.run (h : r.Displays sent) (es : List Event) :
    (r.run es).Displays sent ∧ (r.run es).geometry = r.geometry.after es := by
  induction es generalizing r with
  | nil => exact ⟨h, rfl⟩
  | cons e es ih =>
    obtain ⟨hrun, hgeometry⟩ := ih (h.react e)
    exact ⟨hrun, by rw [after_cons, ← geometry_react, ← hgeometry]; rfl⟩

/-- Each press moves on by one row until the last line is in view. -/
theorem Displays.run_down (h : r.Displays sent) {ks : List Key} (hks : ∀ k ∈ ks, k.code = .down) :
    r.run (ks.map .key) = r.atRow (min (r.viewport.scroll + ks.length) r.lastStart) := by
  induction ks generalizing r with
  | nil =>
    have hle := h.scroll_le
    simp [Reader.run, Reader.atRow, hle]
  | cons k ks ih =>
    obtain ⟨hk, hks⟩ := List.forall_mem_cons.mp hks
    have hstep : (r.react (.key k)).1 = r.scrollBy 1 := by simp only [Reader.react, hk]
    rw [List.map_cons, Reader.run, hstep, ih (h.scrollBy 1) hks, scrollBy_eq]
    have hmin : ∀ n : Nat, min (min ((n : Int) + 1).toNat r.lastStart + ks.length) r.lastStart =
        min (n + (k :: ks).length) r.lastStart := by
      intro n
      rw [List.length_cons]
      omega
    rw [← hmin]
    rfl

theorem Displays.inRange (h : r.Displays sent) (hg : r.geometry.window.height ≤ Word.max16) :
    r.viewport.InRange r.lines.length :=
  ⟨h.scroll_le, h.height_eq ▸ Geometry.visibleHeight_le hg⟩

theorem Displays.visibleRows_eq (h : r.Displays sent)
    (hg : r.geometry.window.height ≤ Word.max16) :
    r.viewport.visibleRows r.lines.length = .ok (r.viewport.scroll,
      r.viewport.scroll + min r.viewport.height r.lines.length) := by
  have hrange := h.inRange hg
  have hle := hrange.scroll_le
  rw [hrange.visibleRows_eq]
  have hfrom : min r.viewport.scroll r.lines.length = r.viewport.scroll := by omega
  have hto : min (r.viewport.scroll + r.viewport.height) r.lines.length =
      r.viewport.scroll + min r.viewport.height r.lines.length := by omega
  rw [hfrom, hto]

/-- Presses enough to reach the last row to start at show the last line. -/
theorem Displays.visibleRows_run_down (h : r.Displays sent)
    (hg : r.geometry.window.height ≤ Word.max16) {ks : List Key}
    (hks : ∀ k ∈ ks, k.code = .down) (henough : r.lastStart ≤ r.viewport.scroll + ks.length) :
    ∃ top, (r.run (ks.map .key)).viewport.visibleRows (r.run (ks.map .key)).lines.length =
        .ok (top, (r.run (ks.map .key)).lines.length) ∧
      top < (r.run (ks.map .key)).lines.length := by
  have hrun := h.run_down hks
  rw [Nat.min_eq_right henough] at hrun
  have hpos := r.viewport.height_pos
  have hlines : 0 < r.lines.length := by
    rw [h.lines_eq]
    exact List.length_pos_iff.mpr (Text.wrap_ne_nil _ _)
  have hstart : r.lastStart = r.lines.length - r.viewport.height := rfl
  have hend : r.lastStart + min r.viewport.height r.lines.length = r.lines.length := by
    omega
  have hrows := (h.atRow (Nat.le_refl r.lastStart)).visibleRows_eq hg
  rw [hrun]
  refine ⟨r.lastStart, hrows.trans ?_, ?_⟩
  · exact congrArg (fun b => Except.ok (r.lastStart, b)) hend
  · have hlt : r.lastStart < r.lines.length := by omega
    exact hlt

/-- Whatever happens to a view, it is the view of the same text that a fresh one would be in its
window, but for the row it starts at, and it fills its window as far as there are lines. One key
scrolls up, one scrolls down, each by a row as long as there is one; a new window moves the row only
if it has to; two keys close the view and leave it as it is; and enough presses lead to the last
line. -/
theorem run_start_displays (sent : Text) {g : Geometry} (hg : g.window.height ≤ Word.max16)
    (es : List Event) :
    let r := (start sent g).run es
    let n := r.viewport.scroll
    (r.geometry = g.after es ∧ r = (start sent (g.after es)).atRow n) ∧
    r.lines = Text.wrap (Escape.expand sent) r.geometry.maxWidth ∧
    n ≤ r.lines.length - r.viewport.height ∧
    r.viewport.visibleRows r.lines.length = .ok (n, n + min r.viewport.height r.lines.length) ∧
    (∀ k, k.code = .up → r.react (.key k) = (if n = 0 then r else r.atRow (n - 1), false)) ∧
    (∀ k, k.code = .down → r.react (.key k) =
      (if n = r.lines.length - r.viewport.height then r else r.atRow (n + 1), false)) ∧
    (∀ w h, ∃ r', r.react (.resize w h) = (r', false) ∧
      r'.viewport.scroll = min n (r'.lines.length - r'.viewport.height)) ∧
    (∀ e, r.handle e = (if (r.react e).2 then none else some (r.react e).1) ∧
      ((r.react e).2 = true ↔ ∃ k, e = .key k ∧ (k.code = .enter ∨ k.code = .esc)) ∧
      ((r.react e).2 = true → (r.react e).1 = r)) ∧
    ∀ ks : List Key, (∀ k ∈ ks, k.code = .down) →
      r.lines.length - r.viewport.height ≤ n + ks.length →
        let r' := r.run (ks.map .key)
        ∃ top, r'.viewport.visibleRows r'.lines.length = .ok (top, r'.lines.length) ∧
          top < r'.lines.length := by
  intro r n
  obtain ⟨hr, hgeometry⟩ : r.Displays sent ∧ r.geometry = g.after es :=
    (displays_start sent g).run es
  have hheight : r.geometry.window.height ≤ Word.max16 := hgeometry ▸ height_after_le hg es
  refine ⟨⟨hgeometry, hgeometry ▸ hr.eq_start⟩, hr.lines_eq, hr.scroll_le,
    hr.visibleRows_eq hheight, fun k hk => ?_, fun k hk => ?_, fun w h => ?_,
    fun e => ⟨handle_eq r e, react_closes_iff r e, react_of_closes⟩,
    fun ks hks => hr.visibleRows_run_down hheight hks⟩
  · simp only [Reader.react, hk, hr.scrollBy_up]
    rfl
  · simp only [Reader.react, hk, hr.scrollBy_down]
    rfl
  · refine ⟨r.resize (.ofTerminal w h), rfl, ?_⟩
    rw [hr.resize_eq]
    rfl

def paging : List Event :=
  [.resize 14 9, .key { code := .down }, .key { code := .down }, .resize 90 30,
    .key { code := .enter }, .resize 15 10, .key { code := .down }]

theorem run_start_displays_paging :
    (Geometry.ofTerminal 80 24).window.height ≤ Word.max16 ∧
      let r := (start "abcdefghij\\nk".toList (.ofTerminal 80 24)).run paging
      r = (start "abcdefghij\\nk".toList (.ofTerminal 15 10)).atRow r.viewport.scroll ∧
        r.viewport.visibleRows r.lines.length =
          .ok (r.viewport.scroll, r.viewport.scroll + min r.viewport.height r.lines.length) := by
  have hg : (Geometry.ofTerminal 80 24).window.height ≤ Word.max16 := by decide
  obtain ⟨⟨-, hfresh⟩, -, -, hrows, -⟩ := run_start_displays "abcdefghij\\nk".toList hg paging
  exact ⟨hg, hfresh, hrows⟩

end Reader

end StorageClient
