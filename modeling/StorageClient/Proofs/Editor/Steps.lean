import StorageClient.Editor.Session

/-!
What an action can do to a session, said once. A fact about every step is a case analysis over
these six ways, and needs to open none of the operations behind them.
-/

namespace StorageClient

theorem eq_ok_of_bind {α β : Type} {x : Except Fault α} {f : α → Except Fault β} {b : β}
    (h : x >>= f = .ok b) : ∃ a, x = .ok a ∧ f a = .ok b := by
  cases x with
  | error fault => cases h
  | ok a => exact ⟨a, rfl, h⟩

inductive Buffer.Edited (b : Buffer) (c : Cursor) : Buffer × Cursor → Prop where
  | insert {ch : Char} {r : Buffer × Cursor} (h : b.insert c ch = .ok r) : Edited b c r
  | split {r : Buffer × Cursor} (h : b.split c.row c.col = .ok r) : Edited b c r
  | delete {r : Buffer × Cursor} (h : b.delete c.row c.col = .ok r) : Edited b c r
  | merge {r : Buffer × Cursor} (h : b.merge c.row = .ok r) : Edited b c r

namespace Session

/-- How an action can leave a session, and whether it ends it. Only the text takes edits and moves,
and only a new size of the terminal changes the window. -/
inductive Step (s : Session) : Action → Session → Option Exit → Prop where
  | edited {a : Action} {r : Buffer × Cursor} {v : Viewport} (hm : s.mode = .editing)
      (hr : s.buffer.Edited s.cursor r) :
      Step s a { s with buffer := r.1, cursor := r.2, viewport := v } none
  | moved {a : Action} {c : Cursor} {v : Viewport} (hm : s.mode = .editing) :
      Step s a { s with cursor := c, viewport := v } none
  | turned {a : Action} (m : Mode) : Step s a { s with mode := m } none
  | cancelled : Step s .cancel s (some .cancelled)
  | confirmed : Step s .confirm s (some (if s.mode = .button .cancel then .cancelled else .saved))
  | resized {w h : Nat} {v : Viewport} :
      Step s (.resize w h)
        { s with
          geometry := .ofTerminal w h
          buffer := s.buffer.setMaxWidth (Geometry.ofTerminal w h).maxWidth
          viewport := v } none

variable {s s' : Session} {a : Action} {x : Option Exit}

theorem eq_of_follow (h : s.follow = .ok s') : ∃ v, s' = { s with viewport := v } := by
  unfold follow at h
  split at h
  · obtain ⟨v, -, h⟩ := eq_ok_of_bind h
    cases h
    exact ⟨v, rfl⟩
  · cases h

theorem eq_of_resize {g : Geometry} (h : s.resize g = .ok s') :
    ∃ v, s' = { s with geometry := g, buffer := s.buffer.setMaxWidth g.maxWidth, viewport := v } := by
  obtain ⟨v, -, h⟩ := eq_ok_of_bind h
  cases h
  exact ⟨v, rfl⟩

theorem Step.of_follow {c : Cursor} (hm : s.mode = .editing)
    (h : { s with cursor := c }.follow = .ok s') : s.Step a s' none := by
  obtain ⟨v, rfl⟩ := eq_of_follow h
  exact .moved hm

theorem Step.of_edited {y : Except Fault (Buffer × Cursor)} (hm : s.mode = .editing)
    (hy : ∀ r, y = .ok r → s.buffer.Edited s.cursor r) (h : (y >>= s.edited) = .ok s') :
    s.Step a s' none := by
  obtain ⟨r, hr, h⟩ := eq_ok_of_bind h
  obtain ⟨v, rfl⟩ := eq_of_follow h
  exact .edited hm (hy r hr)

theorem Step.of_backspace (hm : s.mode = .editing) (h : s.backspace = .ok s') :
    s.Step a s' none := by
  unfold backspace at h
  split at h
  · exact .of_edited hm (fun _ hr => .delete hr) h
  · split at h
    · exact .of_edited hm (fun _ hr => .merge hr) h
    · exact .of_follow hm h

theorem Step.of_move {d : Direction} (hm : s.mode = .editing) (h : s.move d = .ok s') :
    s.Step a s' none := by
  obtain ⟨c, -, h⟩ := eq_ok_of_bind h
  exact .of_follow hm h

theorem Step.of_onText {next : Except Fault Session}
    (hnext : s.mode = .editing → ∀ s', next = .ok s' → s.Step a s' none)
    (h : apply.onText s next = .ok (s', x)) : s.Step a s' x := by
  unfold apply.onText at h
  split at h
  · next hm =>
    obtain ⟨s₁, hs₁, h⟩ := eq_ok_of_bind h
    cases h
    exact hnext hm _ hs₁
  · cases h
    exact .turned s.mode

theorem Step.of_onButtons {m : Mode} (h : apply.onButtons s { s with mode := m } = .ok (s', x)) :
    s.Step a s' x := by
  unfold apply.onButtons at h
  split at h
  · cases h
    exact .turned s.mode
  · cases h
    exact .turned m

/-- Every action steps in one of these ways, if it does not fault. -/
theorem Step.of_apply (h : s.apply a = .ok (s', x)) : s.Step a s' x := by
  cases a with
  | insert c => exact .of_onText (fun hm _ => .of_edited hm fun _ hr => .insert hr) h
  | breakLine => exact .of_onText (fun hm _ => .of_edited hm fun _ hr => .split hr) h
  | backspace => exact .of_onText (fun hm _ => .of_backspace hm) h
  | move d => exact .of_onText (fun hm _ => .of_move hm) h
  | focusButtons =>
    refine .of_onText (fun _ s₁ hs₁ => ?_) h
    cases hs₁
    exact .turned _
  | focusEditor | select b => exact .of_onButtons h
  | confirm =>
    cases h
    exact .confirmed
  | cancel =>
    cases h
    exact .cancelled
  | resize w h' =>
    obtain ⟨s₁, hs₁, h⟩ := eq_ok_of_bind h
    obtain ⟨v, rfl⟩ := eq_of_resize hs₁
    cases h
    exact .resized

end Session

end StorageClient
