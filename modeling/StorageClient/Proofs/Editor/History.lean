import StorageClient.Proofs.Editor.Invariant

/-!
Whole histories of an edit session. Whatever comes in, from the terminal or as an action, and also
after an exit was reported: no step faults, and the invariant holds after every one.
-/

namespace StorageClient.Session

inductive Input where
  | event (e : Event)
  | action (a : Action)
deriving DecidableEq, Repr

def Input.request (m : Mode) : Input → Option Action
  | .event e => Action.ofEvent m e
  | .action a => some a

/-- The session after an input, and its end if the input is one. -/
def feed (s : Session) : Input → Except Fault (Session × Option Exit)
  | .event e => s.handle e
  | .action a => s.apply a

/-- The session after a history. An exit that is reported on the way does not end it. -/
def run (s : Session) : List Input → Except Fault Session
  | [] => .ok s
  | i :: is => do
    let (s', _) ← s.feed i
    s'.run is

/-- The plain command that an input amounts to. -/
def editOf (s : Session) (i : Input) : PlainEdit :=
  match i.request s.mode with
  | some a => s.edit a
  | none => .keep

def script (s : Session) : List Input → List PlainEdit
  | [] => []
  | i :: is => s.editOf i ::
    match s.feed i with
    | .ok (s', _) => s'.script is
    | .error _ => []

theorem feed_eq (s : Session) (i : Input) :
    s.feed i = match i.request s.mode with
      | some a => s.apply a
      | none => .ok (s, none) := by
  cases i <;> rfl

theorem ofKey_ne_newline (m : Mode) (k : Key) : Action.ofKey m k ≠ some (.insert '\n') := by
  have hcode : ∀ c, Action.ofEditingKey.ofCode c ≠ some (.insert '\n') := by
    intro c
    cases c <;> simp [Action.ofEditingKey.ofCode]
  cases m with
  | button b =>
    simp only [Action.ofKey, Action.ofButtonKey]
    split <;> try split
    all_goals simp
  | editing =>
    simp only [Action.ofKey, Action.ofEditingKey]
    split
    · split <;> first | exact hcode _ | simp
    · cases ht : k.typed? with
      | none => exact hcode _
      | some c =>
        -- A newline would be a control character, and those are not typed.
        have hc := Key.not_isControl_of_typed? ht
        rintro h
        obtain rfl : c = '\n' := by simpa using h
        exact absurd hc (by decide)

theorem request_ne_newline {m : Mode} {i : Input} (hi : i ≠ .action (.insert '\n')) :
    i.request m ≠ some (.insert '\n') := by
  cases i with
  | action a => simpa [Input.request] using hi
  | event e =>
    simp only [Input.request]
    unfold Action.ofEvent
    split
    · simp
    · split
      · simp
      · exact ofKey_ne_newline m _
    · simp

theorem Sound.feed_spec {s : Session} (h : s.Sound) {i : Input} (hi : i ≠ .action (.insert '\n')) :
    ∃ s' e, s.feed i = .ok (s', e) ∧ s'.Sound ∧ s'.plain = s.plain.apply (s.editOf i) := by
  rw [feed_eq, editOf]
  cases ha : i.request s.mode with
  | none => exact ⟨s, none, rfl, h, rfl⟩
  | some a => exact h.apply_spec fun he => request_ne_newline hi (he ▸ ha)

/-- A history on a sound session: no fault, a sound session, and the text that the plain editor
has after the same commands. -/
theorem Sound.run_spec {s : Session} (h : s.Sound) {is : List Input}
    (hin : .action (.insert '\n') ∉ is) :
    ∃ s', s.run is = .ok s' ∧ s'.Sound ∧ s'.plain = (s.script is).foldl PlainText.apply s.plain := by
  induction is generalizing s with
  | nil => exact ⟨s, rfl, h, rfl⟩
  | cons i is ih =>
    rw [List.mem_cons, not_or] at hin
    obtain ⟨s₁, e, hs₁, hsound, hplain⟩ := h.feed_spec (Ne.symm hin.1)
    obtain ⟨s', hs', hsound', hplain'⟩ := ih hsound hin.2
    refine ⟨s', by rw [run, hs₁]; exact hs', hsound', ?_⟩
    rw [script, hs₁, List.foldl_cons, ← hplain, hplain']

theorem plain_start (content : Text) (g : Geometry) :
    (start content g).plain = ⟨content.filter (· ≠ '\n'), 0⟩ := by
  simp only [plain, start, Buffer.flatten, Buffer.ofText, Text.flatten_wrap]
  rfl

/-- No history of a session faults, and after every one the invariant holds. Only the window that
the session starts in has to be one of the screen. -/
theorem run_start_sound (content : Text) {g : Geometry} (hg : g.window.height ≤ Word.max16)
    {is : List Input} (hin : .action (.insert '\n') ∉ is) :
    ∃ s, (start content g).run is = .ok s ∧ s.Sound ∧ 0 < s.buffer.count ∧
      0 < s.geometry.maxWidth ∧ 0 < s.geometry.visibleHeight := by
  obtain ⟨s, hs, hsound, -⟩ := (start_sound content hg).run_spec hin
  exact ⟨s, hs, hsound, Nat.zero_lt_of_lt hsound.row_lt, s.geometry.maxWidth_pos,
    s.geometry.visibleHeight_pos⟩

/-- A history in which a line outlives a narrower window, is joined with the next one and cut
again, and which goes on after its exit. -/
def narrowing : List Input :=
  [.event (.resize 14 9), .event (.key { code := .down }), .event (.key { code := .backspace }),
    .event (.key { code := .char 'x' }), .event (.key { code := .tab }), .action .confirm,
    .action .focusEditor, .action .breakLine, .action (.move .up), .event (.resize 0 0),
    .action .backspace]

theorem run_start_sound_narrowed :
    (Geometry.ofTextArea 20 3).window.height ≤ Word.max16 ∧
      .action (.insert '\n') ∉ narrowing ∧
      ∃ s, (start "0123456789\nabc".toList (.ofTextArea 20 3)).run narrowing = .ok s ∧ s.Sound ∧
        0 < s.buffer.count ∧ 0 < s.geometry.maxWidth ∧ 0 < s.geometry.visibleHeight :=
  ⟨by decide, by decide, run_start_sound _ (by decide) (by decide)⟩

/-- A session edits as the plain editor does that never knew of lines: after every history it has
the plain editor's text and position, and every further input does to them what its plain command
does. What is saved is the plain editor's text. -/
theorem run_refines_plainText (content : Text) {g : Geometry} (hg : g.window.height ≤ Word.max16)
    {is : List Input} (hin : .action (.insert '\n') ∉ is) :
    let t := ((start content g).script is).foldl PlainText.apply ⟨content.filter (· ≠ '\n'), 0⟩
    ∃ s, (start content g).run is = .ok s ∧ s.plain = t ∧ s.finish .saved = some t.text ∧
      ∀ i, i ≠ .action (.insert '\n') →
        ∃ s' e, s.feed i = .ok (s', e) ∧ s'.plain = t.apply (s.editOf i) := by
  obtain ⟨s, hs, hsound, hplain⟩ := (start_sound content hg).run_spec hin
  rw [plain_start] at hplain
  refine ⟨s, hs, hplain, by rw [← hplain]; rfl, fun i hi => ?_⟩
  obtain ⟨s', e, hs', -, hplain'⟩ := hsound.feed_spec hi
  exact ⟨s', e, hs', hplain ▸ hplain'⟩

theorem run_refines_plainText_narrowed :
    (Geometry.ofTextArea 20 3).window.height ≤ Word.max16 ∧
      .action (.insert '\n') ∉ narrowing ∧
      let first := start "0123456789\nabc".toList (.ofTextArea 20 3)
      let t := (first.script narrowing).foldl PlainText.apply ⟨"0123456789abc".toList, 0⟩
      ∃ s, first.run narrowing = .ok s ∧ s.plain = t ∧ s.finish .saved = some t.text ∧
        ∀ i, i ≠ .action (.insert '\n') →
          ∃ s' e, s.feed i = .ok (s', e) ∧ s'.plain = t.apply (s.editOf i) :=
  ⟨by decide, by decide, run_refines_plainText _ (by decide) (by decide)⟩

end StorageClient.Session
