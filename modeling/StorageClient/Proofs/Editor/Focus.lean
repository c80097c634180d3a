import Mathlib.Data.List.Basic
import StorageClient.Proofs.Editor.History
import StorageClient.Proofs.Editor.Steps

/-!
Which keys end a session, and what the buttons leave alone. The two key tables agree on the keys
that end it; while a button has the focus nothing but the mode and the window changes, so that the
way to the buttons and back leads to the same session.
-/

namespace StorageClient

def Event.IsDown (e : Event) (k : Key) : Prop := e = .key k ∧ k.kind ≠ .release

/-! ### Keys that end a session -/

namespace Action

theorem ofCode_eq_confirm_iff (c : KeyCode) :
    ofEditingKey.ofCode c = some .confirm ↔ c = .enter := by
  cases c <;> simp [ofEditingKey.ofCode]

theorem ofCode_eq_cancel_iff (c : KeyCode) :
    ofEditingKey.ofCode c = some .cancel ↔ c = .esc := by
  cases c <;> simp [ofEditingKey.ofCode]

theorem ofKey_eq_confirm_iff (m : Mode) (k : Key) :
    ofKey m k = some .confirm ↔ k.code = .enter := by
  cases m with
  | editing =>
    simp only [ofKey, ofEditingKey]
    split
    · split <;> simp_all [ofCode_eq_confirm_iff]
    · cases ht : k.typed? with
      | none => simp [ofCode_eq_confirm_iff]
      | some c => simp [Key.code_of_typed? ht]
  | button b =>
    simp only [ofKey, ofButtonKey]
    split <;> simp_all

theorem ofKey_eq_cancel_iff (m : Mode) (k : Key) : ofKey m k = some .cancel ↔
    k.code = .char 'c' ∧ k.mods.ctrl = true ∨ k.code = .esc ∧ m = .editing := by
  cases m with
  | editing =>
    simp only [ofKey, ofEditingKey]
    split
    · split <;> simp_all [ofCode_eq_cancel_iff]
    · next hctrl =>
      cases ht : k.typed? with
      | none => simp [ofCode_eq_cancel_iff, hctrl]
      | some c => simp [Key.code_of_typed? ht, hctrl]
  | button b =>
    simp only [ofKey, ofButtonKey]
    split <;> simp_all

theorem ofEvent_eq_some_iff (m : Mode) (e : Event) (a : Action) : ofEvent m e = some a ↔
    (∃ k, e.IsDown k ∧ ofKey m k = some a) ∨ ∃ w h, e = .resize w h ∧ a = .resize w h := by
  cases e with
  | key k =>
    by_cases hk : k.kind = .release
    · simp [ofEvent, Event.IsDown, hk]
    · simp [ofEvent, Event.IsDown, hk]
  | resize w h => simp [ofEvent, Event.IsDown, eq_comm]
  | paste _ | focus _ | mouse _ _ => simp [ofEvent, Event.IsDown]

theorem ofEvent_eq_confirm_iff (m : Mode) (e : Event) :
    ofEvent m e = some .confirm ↔ ∃ k, e.IsDown k ∧ k.code = .enter := by
  simp [ofEvent_eq_some_iff, ofKey_eq_confirm_iff]

theorem ofEvent_eq_cancel_iff (m : Mode) (e : Event) : ofEvent m e = some .cancel ↔
    ∃ k, e.IsDown k ∧
      (k.code = .char 'c' ∧ k.mods.ctrl = true ∨ k.code = .esc ∧ m = .editing) := by
  simp [ofEvent_eq_some_iff, ofKey_eq_cancel_iff]

theorem ofKey_ne_resize (m : Mode) (k : Key) (w h : Nat) : ofKey m k ≠ some (.resize w h) := by
  have hcode : ∀ c, ofEditingKey.ofCode c ≠ some (.resize w h) := by
    intro c
    cases c <;> simp [ofEditingKey.ofCode]
  cases m with
  | editing =>
    simp only [ofKey, ofEditingKey]
    split
    · split <;> simp [hcode]
    · cases k.typed? <;> simp [hcode]
  | button b =>
    simp only [ofKey, ofButtonKey]
    split <;> simp

theorem ofEvent_eq_resize_iff (m : Mode) (e : Event) (w h : Nat) :
    ofEvent m e = some (.resize w h) ↔ e = .resize w h := by
  rw [ofEvent_eq_some_iff]
  simp [ofKey_ne_resize]

theorem ofEvent_tab {e : Event} {k : Key} (he : e.IsDown k) (hk : k.code = .tab) :
    ofEvent .editing e = some .focusButtons := by
  refine (ofEvent_eq_some_iff _ _ _).mpr (.inl ⟨k, he, ?_⟩)
  simp [ofKey, ofEditingKey, hk, ofEditingKey.ofCode, Key.typed?]

end Action

namespace Session

variable {s s' : Session}

theorem apply_exit_iff (s s' : Session) (a : Action) (x : Exit) :
    s.apply a = .ok (s', some x) ↔ s' = s ∧
      (a = .cancel ∧ x = .cancelled ∨
        a = .confirm ∧ x = if s.mode = .button .cancel then .cancelled else .saved) := by
  constructor
  · intro h
    cases Step.of_apply h with
    | cancelled => exact ⟨rfl, .inl ⟨rfl, rfl⟩⟩
    | confirmed => exact ⟨rfl, .inr ⟨rfl, rfl⟩⟩
  · rintro ⟨rfl, ⟨rfl, rfl⟩ | ⟨rfl, rfl⟩⟩ <;> rfl

theorem handle_exit_iff (s s' : Session) (e : Event) (x : Exit) :
    s.handle e = .ok (s', some x) ↔ s' = s ∧
      (Action.ofEvent s.mode e = some .cancel ∧ x = .cancelled ∨
        Action.ofEvent s.mode e = some .confirm ∧
          x = if s.mode = .button .cancel then .cancelled else .saved) := by
  unfold handle
  cases Action.ofEvent s.mode e with
  | none => simp [pure, Except.pure]
  | some a => simp [apply_exit_iff]

theorem handle_saved_iff (s s' : Session) (e : Event) :
    s.handle e = .ok (s', some .saved) ↔ s' = s ∧
      (s.mode = .editing ∨ s.mode = .button .save) ∧ ∃ k, e.IsDown k ∧ k.code = .enter := by
  rw [handle_exit_iff, Action.ofEvent_eq_confirm_iff]
  rcases s.mode with _ | _ | _ <;> simp

theorem handle_cancelled_iff (s s' : Session) (e : Event) :
    s.handle e = .ok (s', some .cancelled) ↔ s' = s ∧ ∃ k, e.IsDown k ∧
      (k.code = .char 'c' ∧ k.mods.ctrl = true ∨ k.code = .esc ∧ s.mode = .editing ∨
        k.code = .enter ∧ s.mode = .button .cancel) := by
  rw [handle_exit_iff, Action.ofEvent_eq_confirm_iff, Action.ofEvent_eq_cancel_iff]
  rcases s.mode with _ | _ | _ <;> simp [← exists_or, ← and_or_left]

theorem eq_of_feed_exit {i : Input} {x : Exit} (h : s.feed i = .ok (s', some x)) : s' = s := by
  rw [feed_eq] at h
  split at h
  · exact ((apply_exit_iff s s' _ x).mp h).1
  · cases h

/-! ### What the buttons leave alone -/

/-- The lines and the cursor are those of `s`. -/
def Still (s s' : Session) : Prop := s'.buffer.lines = s.buffer.lines ∧ s'.cursor = s.cursor

theorem Step.still {b : Button} {a : Action} {x : Option Exit} (hm : s.mode = .button b)
    (h : s.Step a s' x) : s.Still s' := by
  cases h with
  | edited hm' _ | moved hm' =>
    rw [hm] at hm'
    cases hm'
  | turned _ | cancelled | confirmed | resized => exact ⟨rfl, rfl⟩

theorem feed_still {b : Button} {i : Input} {x : Option Exit} (hm : s.mode = .button b)
    (h : s.feed i = .ok (s', x)) : s.Still s' := by
  rw [feed_eq] at h
  split at h
  · exact (Step.of_apply h).still hm
  · cases h
    exact ⟨rfl, rfl⟩

theorem handle_resize (s : Session) (w h : Nat) :
    s.handle (.resize w h) = (·, none) <$> s.resize (.ofTerminal w h) := by
  change (s.resize (.ofTerminal w h) >>= fun s' => pure (s', none)) = _
  cases s.resize (.ofTerminal w h) <;> rfl

theorem resize_still {g : Geometry} (h : s.resize g = .ok s') :
    s.Still s' ∧ s'.mode = s.mode := by
  obtain ⟨v, rfl⟩ := eq_of_resize h
  exact ⟨⟨rfl, rfl⟩, rfl⟩

/-- While a button has the focus, all but a new size can only change the mode. -/
theorem apply_of_button {b : Button} {a : Action} (hm : s.mode = .button b)
    (ha : ∀ w h, a ≠ .resize w h) : ∃ m x, s.apply a = .ok ({ s with mode := m }, x) := by
  have hself : ({ s with mode := .button b } : Session) = s := by rw [← hm]
  cases a with
  | resize w h => exact absurd rfl (ha w h)
  | confirm | cancel => exact ⟨.button b, _, by rw [hself]; rfl⟩
  | insert _ | breakLine | backspace | move _ | focusButtons =>
    exact ⟨.button b, none, by simp only [apply, apply.onText, hm, hself]; rfl⟩
  | focusEditor => exact ⟨.editing, none, by simp only [apply, apply.onButtons, hm]; rfl⟩
  | select b' => exact ⟨.button b', none, by simp only [apply, apply.onButtons, hm]; rfl⟩

theorem handle_of_button {b : Button} {e : Event} (hm : s.mode = .button b)
    (he : ∀ w h, e ≠ .resize w h) : ∃ m x, s.handle e = .ok ({ s with mode := m }, x) := by
  unfold handle
  cases ha : Action.ofEvent s.mode e with
  | none => exact ⟨s.mode, none, rfl⟩
  | some a =>
    refine apply_of_button hm fun w h heq => he w h ?_
    rwa [heq, Action.ofEvent_eq_resize_iff] at ha

theorem Sound.exists_feed_of_button {b : Button} (h : s.Sound) (hm : s.mode = .button b)
    (i : Input) : ∃ s' x, s.feed i = .ok (s', x) := by
  rw [feed_eq]
  cases i.request s.mode with
  | none => exact ⟨s, none, rfl⟩
  | some a =>
    by_cases ha : ∃ w h, a = .resize w h
    · obtain ⟨w, h', rfl⟩ := ha
      obtain ⟨s', x, hs', -⟩ := h.apply_spec (a := .resize w h') nofun
      exact ⟨s', x, hs'⟩
    · obtain ⟨m, x, hs'⟩ := apply_of_button hm fun w h heq => ha ⟨w, h, heq⟩
      exact ⟨_, x, hs'⟩

theorem run_cons_of_handle {e : Event} {x : Option Exit} (h : s.handle e = .ok (s', x))
    (is : List Input) : s.run (.event e :: is) = s'.run is := by
  rw [run]
  change (s.handle e >>= fun r => r.1.run is) = _
  rw [h]
  rfl

/-- Until the text has the focus again, nothing but the mode changes. -/
theorem run_of_away {es : List Event} (hes : ∀ w h, .resize w h ∉ es)
    (haway : ∀ before, before <+: es → before ≠ es → ∀ s', s.run (before.map .event) = .ok s' →
      s'.mode ≠ .editing) :
    ∃ m, s.run (es.map .event) = .ok { s with mode := m } := by
  induction es generalizing s with
  | nil => exact ⟨s.mode, rfl⟩
  | cons e es ih =>
    have hm : s.mode ≠ .editing := haway [] List.nil_prefix nofun s rfl
    obtain ⟨b, hb⟩ : ∃ b, s.mode = .button b := by
      cases hmode : s.mode with
      | editing => exact absurd hmode hm
      | button b => exact ⟨b, rfl⟩
    have he : ∀ w h, e ≠ .resize w h := fun w h heq => hes w h (by simp [heq])
    obtain ⟨m, x, hs₁⟩ := handle_of_button hb he
    have hrun := run_cons_of_handle hs₁
    obtain ⟨m', hs'⟩ := ih (s := { s with mode := m }) (fun w h hmem => hes w h (by simp [hmem]))
      fun before hbefore hne s' hs' => by
        refine haway (e :: before) ?_ (by simpa using hne) s' ?_
        · exact List.cons_prefix_cons.mpr ⟨rfl, hbefore⟩
        · rwa [List.map_cons, hrun]
    exact ⟨m', by rw [List.map_cons, hrun, hs']⟩

/-- The way to the buttons and back changes nothing. -/
theorem run_of_focusButtons (hm : s.mode = .editing) {e : Event} {k : Key} (he : e.IsDown k)
    (hk : k.code = .tab) {es : List Event} (hes : ∀ w h, .resize w h ∉ es)
    (haway : ∀ before, before <+: es → before ≠ es →
      ∀ s', s.run ((e :: before).map .event) = .ok s' → s'.mode ≠ .editing) :
    ∃ s', s.run ((e :: es).map .event) = .ok s' ∧ (s'.mode = .editing → s' = s) := by
  have hfocus : s.handle e = .ok ({ s with mode := .button .save }, none) := by
    rw [handle, hm, Action.ofEvent_tab he hk]
    simp only [apply, apply.onText, hm]
    rfl
  have hrun := run_cons_of_handle hfocus
  obtain ⟨m, hs'⟩ := run_of_away (s := { s with mode := .button .save }) hes
    fun before hbefore hne s' hs' => haway before hbefore hne s' (by rwa [List.map_cons, hrun])
  refine ⟨_, by rw [List.map_cons, hrun, hs'], fun hback => ?_⟩
  obtain rfl : m = .editing := hback
  rw [← hm]

/-- A session ends on Enter, Esc and Ctrl-C, on each where its mode says so, and is left as it was.
While a button has the focus, nothing that comes in changes the lines or the cursor, and neither
does a new window in any mode. So if the focus goes to the buttons, the session is back in its old
state at the moment at which the text first has the focus again. -/
theorem handle_focus (s : Session) :
    (∀ e s', s.handle e = .ok (s', some .saved) ↔ s' = s ∧
      (s.mode = .editing ∨ s.mode = .button .save) ∧ ∃ k, e.IsDown k ∧ k.code = .enter) ∧
    (∀ e s', s.handle e = .ok (s', some .cancelled) ↔ s' = s ∧ ∃ k, e.IsDown k ∧
      (k.code = .char 'c' ∧ k.mods.ctrl = true ∨ k.code = .esc ∧ s.mode = .editing ∨
        k.code = .enter ∧ s.mode = .button .cancel)) ∧
    (∀ i s' x, s.feed i = .ok (s', some x) → s' = s) ∧
    (∀ b, s.mode = .button b → ∀ i,
      (∀ s' x, s.feed i = .ok (s', x) → s.Still s') ∧
        (s.Sound → ∃ s' x, s.feed i = .ok (s', x))) ∧
    (∀ w h, s.handle (.resize w h) = (·, none) <$> s.resize (.ofTerminal w h)) ∧
    (∀ g, (∀ s', s.resize g = .ok s' → s.Still s' ∧ s'.mode = s.mode) ∧
      (s.Sound → g.window.height ≤ Word.max16 → ∃ s', s.resize g = .ok s')) ∧
    (s.mode = .editing → ∀ e k, e.IsDown k → k.code = .tab →
      ∀ es, (∀ w h, .resize w h ∉ es) →
        (∀ before, before <+: es → before ≠ es →
          ∀ s', s.run ((e :: before).map .event) = .ok s' → s'.mode ≠ .editing) →
        ∃ s', s.run ((e :: es).map .event) = .ok s' ∧ (s'.mode = .editing → s' = s)) := by
  refine ⟨fun e s' => handle_saved_iff s s' e, fun e s' => handle_cancelled_iff s s' e,
    fun i s' x => eq_of_feed_exit,
    fun b hm i => ⟨fun s' x => feed_still hm, fun h => h.exists_feed_of_button hm i⟩,
    handle_resize s, fun g => ⟨fun s' => resize_still, fun h hg => ?_⟩,
    fun hm e k he hk es hes => run_of_focusButtons hm he hk hes⟩
  obtain ⟨s', hs', -⟩ := h.resize_spec hg
  exact ⟨s', hs'⟩

end Session

end StorageClient
