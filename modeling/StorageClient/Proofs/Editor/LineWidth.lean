import Mathlib.Data.List.Chain
import Mathlib.Data.List.Induction
import StorageClient.Proofs.Editor.History
import StorageClient.Proofs.Editor.Steps
import StorageClient.Proofs.Text.Wrapping

/-!
How long the lines of a session can get. An insertion splits a line once and not into chunks, and a
narrower window leaves the lines as they are. Still no line outgrows the widest window so far.
-/

namespace StorageClient

namespace Buffer

variable {b b' : Buffer} {r : Buffer × Cursor} {row : Nat}

/-- No line of `b'` is longer than both its width and the longest line of `b`. -/
def NoLonger (b b' : Buffer) : Prop :=
  ∀ l ∈ b'.lines, l.length ≤ b'.maxWidth ∨ ∃ l₀ ∈ b.lines, l.length ≤ l₀.length

theorem noLonger_of_lines_eq (h : b'.lines = b.lines) : b.NoLonger b' := by
  intro l hl
  rw [h] at hl
  exact .inr ⟨l, hl, Nat.le_refl _⟩

theorem noLonger_splice {n : Nat} {new : List Text}
    (h : ∀ l ∈ new, l.length ≤ b.maxWidth ∨ ∃ l₀ ∈ b.lines, l.length ≤ l₀.length) :
    b.NoLonger (b.splice row n new) := by
  intro l hl
  simp only [splice, List.mem_append] at hl
  rcases hl with (hl | hl) | hl
  · exact .inr ⟨l, List.mem_of_mem_take hl, Nat.le_refl _⟩
  · exact h l hl
  · exact .inr ⟨l, List.mem_of_mem_drop hl, Nat.le_refl _⟩

theorem mem_of_lineAt {l : Text} (h : b.lineAt row = .ok l) : l ∈ b.lines := by
  unfold lineAt at h
  split at h
  · next l' hl' =>
    cases h
    exact List.mem_of_getElem? hl'
  · cases h

theorem noLonger_insert {c : Cursor} {ch : Char} (h : b.insert c ch = .ok r) :
    b.NoLonger r.1 := by
  obtain ⟨l, hl, h⟩ := eq_ok_of_bind h
  obtain ⟨-, -, h⟩ := eq_ok_of_bind h
  have hmem : l ∈ b.lines := mem_of_lineAt hl
  have hlen := length_insert l c.col ch
  generalize l.take c.col ++ ch :: l.drop c.col = l' at h hlen
  split at h
  · next hlt =>
    cases h
    refine noLonger_splice fun k hk => .inl ?_
    obtain rfl := List.mem_singleton.mp hk
    exact Nat.le_of_lt hlt
  · cases h
    have hw := b.maxWidth_pos
    refine noLonger_splice fun k hk => ?_
    simp only [List.mem_cons, List.not_mem_nil, or_false] at hk
    rcases hk with rfl | rfl
    · refine .inl ?_
      simp only [List.length_take]
      omega
    · -- The head took at least one character, so what is left is no longer than the line was.
      refine .inr ⟨l, hmem, ?_⟩
      simp only [List.length_drop]
      omega

theorem noLonger_split {col : Nat} (h : b.split row col = .ok r) : b.NoLonger r.1 := by
  obtain ⟨l, hl, h⟩ := eq_ok_of_bind h
  cases h
  refine noLonger_splice fun k hk => .inr ⟨l, mem_of_lineAt hl, ?_⟩
  simp only [List.mem_cons, List.not_mem_nil, or_false] at hk
  rcases hk with rfl | rfl
  · exact List.length_take_le' _ _
  · simp

theorem noLonger_delete {col : Nat} (h : b.delete row col = .ok r) : b.NoLonger r.1 := by
  unfold delete at h
  split at h
  · cases h
  · obtain ⟨l, hl, h⟩ := eq_ok_of_bind h
    dsimp only at h
    split at h
    · cases h
    · cases h
      refine noLonger_splice fun k hk => .inr ⟨l, mem_of_lineAt hl, ?_⟩
      obtain rfl := List.mem_singleton.mp hk
      simp only [List.length_append, List.length_take, List.length_drop]
      omega

theorem noLonger_merge (h : b.merge row = .ok r) : b.NoLonger r.1 := by
  unfold merge at h
  split at h
  · cases h
  · obtain ⟨l, -, h⟩ := eq_ok_of_bind h
    obtain ⟨above, -, h⟩ := eq_ok_of_bind h
    dsimp only at h
    split at h
    · next hle =>
      cases h
      refine noLonger_splice fun k hk => .inl ?_
      obtain rfl := List.mem_singleton.mp hk
      exact hle
    · cases h
      refine noLonger_splice fun k hk => .inl ?_
      have hle := Text.length_le_of_mem_wrap hk
      rwa [Nat.max_eq_left b.maxWidth_pos] at hle

theorem Edited.noLonger {c : Cursor} (h : b.Edited c r) : b.NoLonger r.1 := by
  cases h with
  | insert h => exact noLonger_insert h
  | split h => exact noLonger_split h
  | delete h => exact noLonger_delete h
  | merge h => exact noLonger_merge h

end Buffer

namespace Session

theorem Step.noLonger {s s' : Session} {a : Action} {x : Option Exit} (h : s.Step a s' x) :
    s.buffer.NoLonger s'.buffer := by
  cases h with
  | edited _ hr => exact hr.noLonger
  | moved _ | turned _ | cancelled | confirmed | resized => exact Buffer.noLonger_of_lines_eq rfl

/-- What can happen to a session: something comes in, or its window is laid out anew. -/
inductive Change where
  | input (i : Input)
  | window (g : Geometry)
deriving DecidableEq, Repr

/-- No newline is inserted, and the window is one of the screen. -/
def Change.Possible : Change → Prop
  | input i => i ≠ .action (.insert '\n')
  | window g => g.window.height ≤ Word.max16

instance : (c : Change) → Decidable c.Possible
  | .input _ => inferInstanceAs (Decidable (_ ≠ _))
  | .window _ => inferInstanceAs (Decidable (_ ≤ _))

def change (s : Session) : Change → Except Fault Session
  | .input i => do
    let (s', _) ← s.feed i
    return s'
  | .window g => s.resize g

/-- The session at every moment of a course of changes, from the first to the last. -/
def course (s : Session) : List Change → Except Fault (List Session)
  | [] => .ok [s]
  | c :: cs => do
    let s' ← s.change c
    let ss ← s'.course cs
    return s :: ss

theorem Sound.change_spec {s : Session} (h : s.Sound) {c : Change} (hc : c.Possible) :
    ∃ s', s.change c = .ok s' ∧ s'.Sound := by
  cases c with
  | input i =>
    obtain ⟨s', x, hs', hsound, -⟩ := h.feed_spec hc
    exact ⟨s', by rw [change, hs']; rfl, hsound⟩
  | window g =>
    obtain ⟨s', hs', hsound, -⟩ := h.resize_spec hc
    exact ⟨s', hs', hsound⟩

theorem noLonger_change {s s' : Session} {c : Change} (h : s.change c = .ok s') :
    s.buffer.NoLonger s'.buffer := by
  cases c with
  | input i =>
    obtain ⟨⟨s₁, x⟩, hs₁, h⟩ := eq_ok_of_bind h
    cases h
    rw [feed_eq] at hs₁
    split at hs₁
    · exact (Step.of_apply hs₁).noLonger
    · cases hs₁
      exact Buffer.noLonger_of_lines_eq rfl
  | window g =>
    obtain ⟨v, rfl⟩ := eq_of_resize h
    exact Buffer.noLonger_of_lines_eq rfl

/-- A course of changes does not fault, and no step of it makes a line longer than the width and
all lines before. -/
theorem Sound.course_spec {s : Session} (h : s.Sound) {cs : List Change}
    (hcs : ∀ c ∈ cs, c.Possible) :
    ∃ ss, s.course cs = .ok (s :: ss) ∧ ss.length = cs.length ∧
      (s :: ss).IsChain fun s s' => s.buffer.NoLonger s'.buffer := by
  induction cs generalizing s with
  | nil => exact ⟨[], rfl, rfl, List.isChain_singleton s⟩
  | cons c cs ih =>
    obtain ⟨hc, hcs⟩ := List.forall_mem_cons.mp hcs
    obtain ⟨s', hs', hsound⟩ := h.change_spec hc
    obtain ⟨ss, hss, hlen, hchain⟩ := ih hsound hcs
    refine ⟨s' :: ss, ?_, by simp [hlen], ?_⟩
    · rw [course, hs']
      change (s'.course cs >>= fun ss => pure (s :: ss)) = _
      rw [hss]
      rfl
    · exact List.isChain_cons_cons.mpr ⟨noLonger_change hs', hchain⟩

theorem Sound.of_mem_course {s : Session} (h : s.Sound) {cs : List Change}
    (hcs : ∀ c ∈ cs, c.Possible) {ss : List Session} (hss : s.course cs = .ok ss) :
    ∀ s' ∈ ss, s'.Sound := by
  induction cs generalizing s ss with
  | nil =>
    cases hss
    exact List.forall_mem_singleton.mpr h
  | cons c cs ih =>
    obtain ⟨hc, hcs⟩ := List.forall_mem_cons.mp hcs
    obtain ⟨s₁, hs₁, hss⟩ := eq_ok_of_bind hss
    obtain ⟨ss₁, hss₁, hss⟩ := eq_ok_of_bind hss
    cases hss
    obtain ⟨s₂, hs₂, hsound⟩ := h.change_spec hc
    obtain rfl : s₂ = s₁ := Except.ok.inj (hs₂.symm.trans hs₁)
    exact List.forall_mem_cons.mpr ⟨h, ih hsound hcs hss₁⟩

theorem course_start_sound (content : Text) {g : Geometry} (hg : g.window.height ≤ Word.max16)
    {cs : List Change} (hcs : ∀ c ∈ cs, c.Possible) :
    ∃ ss, (start content g).course cs = .ok ss ∧ ∀ s ∈ ss, s.Sound := by
  have hstart := start_sound content hg
  obtain ⟨ss, hss, -⟩ := hstart.course_spec hcs
  exact ⟨_, hss, hstart.of_mem_course hcs hss⟩

/-- If lines get no longer from one session to the next, each line fits the width of some session
up to its own, provided that those of the first session do. -/
theorem exists_width_of_isChain {s₀ s : Session} {ss before after : List Session}
    (hfirst : ∀ l ∈ s₀.buffer.lines, l.length ≤ s₀.buffer.maxWidth)
    (hchain : (s₀ :: ss).IsChain fun s s' => s.buffer.NoLonger s'.buffer)
    (hsplit : s₀ :: ss = before ++ s :: after) :
    ∀ l ∈ s.buffer.lines, ∃ s' ∈ before ++ [s], l.length ≤ s'.buffer.maxWidth := by
  induction before using List.reverseRecOn generalizing s after with
  | nil =>
    obtain ⟨rfl, -⟩ := List.cons.inj hsplit
    exact fun l hl => ⟨s₀, by simp, hfirst l hl⟩
  | append_singleton before p ih =>
    rw [List.append_assoc, List.singleton_append] at hsplit
    intro l hl
    have hstep : p.buffer.NoLonger s.buffer := by
      rw [hsplit] at hchain
      exact (List.isChain_cons_cons.mp (List.isChain_append.mp hchain).2.1).1
    rcases hstep l hl with hw | ⟨l₀, hl₀, hle⟩
    · exact ⟨s, by simp, hw⟩
    · obtain ⟨s', hs', hw⟩ := ih hsplit l₀ hl₀
      exact ⟨s', List.mem_append_left _ hs', Nat.le_trans hle hw⟩

theorem length_le_start (content : Text) (g : Geometry) :
    ∀ l ∈ (start content g).buffer.lines, l.length ≤ (start content g).buffer.maxWidth := by
  intro l hl
  have hle := Text.length_le_of_mem_wrap hl
  have hpos : 1 ≤ max g.maxWidth 1 := Nat.le_max_right _ _
  change l.length ≤ max g.maxWidth 1
  omega

/-- Whatever comes in, and however its window changes, a session never has a line that is longer
than the widest window so far. No step makes a line longer than both the width and the longest line
before it; so all lines fit as long as the window has never become narrower. -/
theorem course_start_noLonger (content : Text) {g : Geometry}
    (hg : g.window.height ≤ Word.max16) {cs : List Change} (hcs : ∀ c ∈ cs, c.Possible) :
    ∃ ss, (start content g).course cs = .ok ss ∧ ss.length = cs.length + 1 ∧
      (∀ before s after, ss = before ++ s :: after →
        ∀ l ∈ s.buffer.lines, ∃ s' ∈ before ++ [s], l.length ≤ s'.buffer.maxWidth) ∧
      (∀ before s s' after, ss = before ++ s :: s' :: after → ∀ l ∈ s'.buffer.lines,
        l.length ≤ s'.buffer.maxWidth ∨ ∃ l₀ ∈ s.buffer.lines, l.length ≤ l₀.length) ∧
      ∀ before s after, ss = before ++ s :: after →
        ((before ++ [s]).IsChain fun s s' => s.buffer.maxWidth ≤ s'.buffer.maxWidth) →
        ∀ l ∈ s.buffer.lines, l.length ≤ s.buffer.maxWidth := by
  obtain ⟨ss, hss, hlen, hchain⟩ := (start_sound content hg).course_spec hcs
  have hwide : ∀ before s after, start content g :: ss = before ++ s :: after →
      ∀ l ∈ s.buffer.lines, ∃ s' ∈ before ++ [s], l.length ≤ s'.buffer.maxWidth :=
    fun _ _ _ => exists_width_of_isChain (length_le_start content g) hchain
  refine ⟨_, hss, by simp [hlen], hwide, ?_, ?_⟩
  · intro before s s' after hsplit
    rw [hsplit] at hchain
    exact (List.isChain_cons_cons.mp (List.isChain_append.mp hchain).2.1).1
  · intro before s after hsplit hgrow l hl
    obtain ⟨s', hs', hle⟩ := hwide before s after hsplit l hl
    have htrans : IsTrans Session fun s s' => s.buffer.maxWidth ≤ s'.buffer.maxWidth :=
      ⟨fun _ _ _ => Nat.le_trans⟩
    have hpair := List.isChain_iff_pairwise.mp hgrow
    rcases List.mem_append.mp hs' with hb | hb
    · exact Nat.le_trans hle ((List.pairwise_append.mp hpair).2.2 s' hb s (by simp))
    · obtain rfl := List.mem_singleton.mp hb
      exact hle

/-- A line outlives a narrow window, is split near its start, joined again and cut to size. -/
def squeezing : List Change :=
  [.window (.ofTextArea 4 2), .input (.action (.insert 'x')),
    .input (.event (.key { code := .backspace })), .input (.event (.resize 50 9)),
    .input (.action .breakLine)]

theorem course_start_noLonger_squeezing :
    (Geometry.ofTextArea 20 3).window.height ≤ Word.max16 ∧ (∀ c ∈ squeezing, c.Possible) ∧
      ∃ ss, (start "0123456789\nabc".toList (.ofTextArea 20 3)).course squeezing = .ok ss ∧
        ss.length = 6 ∧
        ∀ before s after, ss = before ++ s :: after →
          ∀ l ∈ s.buffer.lines, ∃ s' ∈ before ++ [s], l.length ≤ s'.buffer.maxWidth := by
  have hg : (Geometry.ofTextArea 20 3).window.height ≤ Word.max16 := by decide
  have hcs : ∀ c ∈ squeezing, c.Possible := by decide
  obtain ⟨ss, hss, hlen, hwide, -, -⟩ :=
    course_start_noLonger "0123456789\nabc".toList hg hcs
  exact ⟨hg, hcs, ss, hss, hlen, hwide⟩

end Session

end StorageClient
