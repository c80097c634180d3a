import StorageClient.Program.Run
import StorageClient.Proofs.Editor.History
import StorageClient.Proofs.Program.Dialogue
import StorageClient.Proofs.Wire.Lines

/-!
Every command of a run is one line. What the user types holds no newline, neither at a question nor
in an editor, and what the service sends back reaches a command only through an editor, whose lines
hold none either.
-/

namespace StorageClient

open Dialogue

/-! ### Forms -/

namespace Form

variable {α β : Type} {Q : α → Prop} {R : β → Prop}

/-- However it is answered, as long as each answer is one line, the form comes to a `Q`. -/
def Always (Q : α → Prop) : Form α → Prop
  | done a => Q a
  | ask _ next => ∀ t, '\n' ∉ t → (next t).Always Q

theorem Always.bind {form : Form α} {f : α → Form β} (h : form.Always Q)
    (hf : ∀ a, Q a → (f a).Always R) : (form >>= f).Always R := by
  induction form with
  | done a => exact hf a h
  | ask q next ih => exact fun t ht => ih t (h t ht)

theorem text_always (title : String) (hidden : Bool) : (text title hidden).Always ('\n' ∉ ·) :=
  fun _ ht => ht

theorem directory_always (title : String) : (directory title).Always ('\n' ∉ ·) :=
  fun _ ht => Path.newline_not_mem_normalize ht

theorem filePath_always : filePath.Always ('\n' ∉ ·) :=
  (directory_always _).bind fun _ hd => (text_always _ _).bind fun _ hn =>
    Path.newline_not_mem_file hd hn

end Form

def Task.OneLine : Task → Prop
  | .request c => c.OneLine
  | .listFiles dir => '\n' ∉ dir
  | .renameFile oldDir oldName newDir newName =>
    '\n' ∉ Path.file oldDir oldName ∧ '\n' ∉ Path.file newDir newName
  | .createFile path | .readFile path | .editFile path => '\n' ∉ path
  | .logout => True

theorem Entry.form_always (entry : Entry) : entry.form.Always Task.OneLine := by
  have request : ∀ c : Command, (∀ a ∈ c.arguments, '\n' ∉ a) → (Task.request c).OneLine :=
    fun c => Command.OneLine.of_arguments
  cases entry with
  | listUsers | sessionInfo => exact request _ (by simp [Command.arguments])
  | logout => trivial
  | createUser =>
    refine (Form.text_always _ _).bind fun user hu => (Form.text_always _ _).bind fun word hw => ?_
    exact request _ (by simpa [Command.arguments] using ⟨hu, hw⟩)
  | deleteUser =>
    refine (Form.text_always _ _).bind fun user hu => ?_
    exact request _ (by simpa [Command.arguments] using hu)
  | createDirectory | deleteDirectory =>
    refine (Form.directory_always _).bind fun dir hd => ?_
    exact request _ (by simpa [Command.arguments] using hd)
  | deleteFile | viewMetadata =>
    refine Form.filePath_always.bind fun path hp => ?_
    exact request _ (by simpa [Command.arguments] using hp)
  | truncateFile | setPermission =>
    refine Form.filePath_always.bind fun path hp => (Form.text_always _ _).bind fun value hv => ?_
    exact request _ (by simpa [Command.arguments] using ⟨hp, hv⟩)
  | listFiles => exact (Form.directory_always _).bind fun dir hd => hd
  | createFile | readFile | editFile => exact Form.filePath_always.bind fun path hp => hp
  | renameFile =>
    refine (Form.directory_always _).bind fun oldDir hod => (Form.text_always _ _).bind
      fun oldName hon => (Form.directory_always _).bind fun newDir hnd =>
        (Form.text_always _ _).bind fun newName hnn => ?_
    exact ⟨Path.newline_not_mem_file hod hon, Path.newline_not_mem_file hnd hnn⟩

/-! ### Flows -/

namespace Flow

variable {path content : Text}

theorem request_sat (title : Text) {c : Command} (h : c.OneLine) :
    (request service title c).Sat Command.OneLine fun _ => True :=
  (Sat.service h).bind fun _ _ => trivial

theorem listFiles_sat {dir : Text} (h : '\n' ∉ dir) :
    (listFiles service dir).Sat Command.OneLine fun _ => True := by
  have hc : (Command.listDir dir).OneLine := .of_arguments (by simpa [Command.arguments] using h)
  refine (Sat.service hc).bind fun o _ => ?_
  rcases o with _ | _ | _ <;> trivial

theorem login_sat {user password : Text} (hu : '\n' ∉ user) (hp : '\n' ∉ password) :
    (login service user password).Sat Command.OneLine fun _ => True := by
  have hc : (Command.login user password).OneLine :=
    .of_arguments (by simpa [Command.arguments] using ⟨hu, hp⟩)
  refine (Sat.service hc).bind fun o _ => ?_
  rcases o with _ | _ | _ <;> trivial

theorem logout_sat : (logout service).Sat Command.OneLine fun _ => True := by
  have hc : Command.logout.OneLine := .of_arguments (by simp [Command.arguments])
  refine (Sat.service hc).bind fun o _ => ?_
  cases o <;> trivial

theorem renameFile_sat {oldDir oldName newDir newName : Text}
    (ho : '\n' ∉ Path.file oldDir oldName) (hn : '\n' ∉ Path.file newDir newName) :
    (renameFile service oldDir oldName newDir newName).Sat Command.OneLine fun _ => True :=
  request_sat _ (.of_arguments (by simpa [Command.arguments] using ⟨ho, hn⟩))

theorem getFile_oneLine (h : '\n' ∉ path) : (Command.getFile path).OneLine :=
  .of_arguments (by simpa [Command.arguments] using h)

theorem createFile_oneLine (hp : '\n' ∉ path) (hc : '\n' ∉ content) :
    (Command.createFile path content).OneLine := by
  have henc := Escape.newline_not_mem_encode hc
  exact .of_arguments (by simpa [Command.arguments] using ⟨hp, henc⟩)

theorem readForView_sat (h : '\n' ∉ path) :
    (readForView service path).Sat Command.OneLine fun _ => True := by
  refine (Sat.service (getFile_oneLine h)).bind fun o _ => ?_
  rcases o with _ | _ | _ <;> trivial

theorem loadForEdit_sat (h : '\n' ∉ path) :
    (loadForEdit service path).Sat Command.OneLine fun _ => True := by
  refine (Sat.service (getFile_oneLine h)).bind fun o _ => ?_
  rcases o with _ | _ | _ <;> trivial

theorem saveEdited_sat (hp : '\n' ∉ path) (hc : '\n' ∉ content) :
    (saveEdited service path content).Sat Command.OneLine fun _ => True := by
  have hdelete : (Command.deleteFile path).OneLine :=
    .of_arguments (by simpa [Command.arguments] using hp)
  refine (Sat.service hdelete).bind fun _ _ => ?_
  refine (Sat.service (createFile_oneLine hp hc)).bind fun o _ => ?_
  rcases o with _ | _ | _ <;> trivial

theorem createWithContent_sat (hp : '\n' ∉ path) (hc : '\n' ∉ content) :
    (createWithContent service path content).Sat Command.OneLine fun _ => True := by
  refine (Sat.service (createFile_oneLine hp hc)).bind fun o _ => ?_
  rcases o with _ | _ | _ <;> trivial

end Flow

/-! ### Phases -/

def Next.OneLine : Next → Prop
  | .edit _ path => '\n' ∉ path
  | .login | .menu _ | .leave => True

/-- The invariant of a run: whatever has been typed is one line, and an editor is sound. -/
def Phase.OneLine : Phase → Prop
  | .username p => '\n' ∉ p.value
  | .password user p => '\n' ∉ user ∧ '\n' ∉ p.value
  | .notice _ next => next.OneLine
  | .form _ _ _ p next => '\n' ∉ p.value ∧ ∀ t, '\n' ∉ t → (next t).Always Task.OneLine
  | .editor _ path _ s => '\n' ∉ path ∧ s.Sound
  | .menu .. | .reader .. => True

theorem Prompt.handle_oneLine {p : Prompt} (h : '\n' ∉ p.value) (k : Key) :
    (∀ p', p.handle k = .ok p' → '\n' ∉ p'.value) ∧ ∀ t, p.handle k = .error t → '\n' ∉ t := by
  unfold handle
  split
  · refine ⟨by simp, ?_⟩
    rintro t ⟨⟩
    exact fun hmem => h (Text.mem_of_mem_trim hmem)
  · simp
  · refine ⟨?_, by simp⟩
    rintro p' ⟨⟩
    exact fun hmem => h (List.dropLast_subset _ hmem)
  · refine ⟨?_, by split <;> simp⟩
    split
    · next c hc =>
      -- What is typed is no control character.
      rintro p' ⟨⟩ hmem
      rcases List.mem_append.1 hmem with hmem | hmem
      · exact h hmem
      · obtain rfl := List.mem_singleton.1 hmem
        exact absurd (Key.not_isControl_of_typed? hc) (by decide)
    · rintro p' ⟨⟩
      exact h
  · refine ⟨?_, by simp⟩
    rintro p' ⟨⟩
    exact h

namespace Phase

variable {size : Nat × Nat} {user path : Text} {entry : Entry}

theorem editorOf_oneLine (h : '\n' ∉ path) (purpose : Purpose) (content : Text) :
    (editorOf user path purpose content size).OneLine :=
  ⟨h, Session.start_sound content (Geometry.height_ofTerminal_le size.1 size.2)⟩

theorem ofNext_oneLine {next : Next} (h : next.OneLine) : ∀ ph ∈ ofNext size next, ph.OneLine := by
  cases next with
  | login =>
    rintro ph ⟨⟩
    exact List.not_mem_nil
  | menu user =>
    rintro ph ⟨⟩
    trivial
  | edit user path =>
    rintro ph ⟨⟩
    exact editorOf_oneLine h .replace []
  | leave => rintro ph ⟨⟩

theorem tell_sat {n : Dialogue Notice} (h : n.Sat Command.OneLine fun _ => True) :
    (perform.tell user n).Sat Command.OneLine OneLine :=
  h.bind fun _ _ => trivial

theorem perform_sat {task : Task} (h : task.OneLine) :
    (perform service size user entry task).Sat Command.OneLine OneLine := by
  cases task with
  | request c => exact tell_sat (Flow.request_sat _ h)
  | listFiles dir => exact tell_sat (Flow.listFiles_sat h)
  | renameFile oldDir oldName newDir newName => exact tell_sat (Flow.renameFile_sat h.1 h.2)
  | createFile path => exact editorOf_oneLine h .create []
  | readFile path =>
    refine (Flow.readForView_sat h).bind fun r _ => ?_
    cases r <;> trivial
  | editFile path =>
    refine (Flow.loadForEdit_sat h).bind fun l _ => ?_
    cases l.warning with
    | none => exact editorOf_oneLine h .replace l.content
    | some n => exact h
  | logout => exact Flow.logout_sat.bind fun _ _ => trivial

theorem proceed_sat {form : Form Task} (h : form.Always Task.OneLine) :
    (proceed service size user entry form).Sat Command.OneLine OneLine := by
  cases form with
  | done task => exact perform_sat h
  | ask q next => exact ⟨List.not_mem_nil, h⟩

theorem tryLogin_sat {password : Text} (hu : '\n' ∉ user) (hp : '\n' ∉ password) :
    (tryLogin service user password).Sat Command.OneLine fun next => ∀ ph ∈ next, ph.OneLine := by
  unfold tryLogin
  split
  · rintro ph ⟨⟩
  · refine (Flow.login_sat hu hp).bind fun r _ => ?_
    cases r with
    | ok n =>
      rintro ph ⟨⟩
      trivial
    | error n =>
      rintro ph ⟨⟩
      trivial

theorem answer_sat {q : Question} {next : Text → Form Task} {t : Text}
    (h : (next t).Always Task.OneLine) :
    (answer service size user entry q next t).Sat Command.OneLine OneLine := by
  unfold answer
  split
  · trivial
  · exact proceed_sat h

theorem close_sat {purpose : Purpose} {text : Option Text} (hp : '\n' ∉ path)
    (ht : ∀ t ∈ text, '\n' ∉ t) :
    (close service user path purpose text).Sat Command.OneLine OneLine := by
  unfold close
  cases text with
  | none => trivial
  | some t =>
    cases purpose with
    | create => exact (Flow.createWithContent_sat hp (ht t rfl)).bind fun _ _ => trivial
    | replace => exact (Flow.saveEdited_sat hp (ht t rfl)).bind fun _ _ => trivial

theorem typed_sat {p : Prompt} (hp : '\n' ∉ p.value) (e : Event) {stay : Prompt → Phase}
    {accept : Text → Dialogue (Option Phase)} (hstay : ∀ p, '\n' ∉ p.value → (stay p).OneLine)
    (haccept : ∀ t, '\n' ∉ t →
      (accept t).Sat Command.OneLine fun next => ∀ ph ∈ next, ph.OneLine) :
    SatT Command.OneLine (fun next => ∀ ph ∈ next, ph.OneLine) (typed p e stay accept) := by
  have hkeep : ∀ p, '\n' ∉ p.value → ∀ ph ∈ some (stay p), ph.OneLine := by
    rintro p hp ph ⟨⟩
    exact hstay p hp
  cases e with
  | key k =>
    unfold typed
    dsimp only
    cases hk : p.handle k with
    | ok p' => exact SatT.pure (hkeep p' ((Prompt.handle_oneLine hp k).1 p' hk))
    | error t => exact SatT.lift (haccept t ((Prompt.handle_oneLine hp k).2 t hk))
  | _ => exact SatT.pure (hkeep p hp)

theorem newline_not_mem_finish {s : Session} (h : s.Sound) (exit : Exit) :
    ∀ t ∈ s.finish exit, '\n' ∉ t := by
  cases exit with
  | saved =>
    rintro t ⟨⟩ hmem
    obtain ⟨l, hl, hmem⟩ := List.mem_flatten.1 hmem
    exact h.newlineFree l hl hmem
  | cancelled => rintro t ⟨⟩

/-- One event keeps the invariant, and what it sends is one line each. -/
theorem step_sat {ph : Phase} (h : ph.OneLine) (e : Event) :
    SatT Command.OneLine (fun next => ∀ ph ∈ next, ph.OneLine) (ph.step service size e) := by
  have hstay : ∀ ph : Phase, ph.OneLine → ∀ ph' ∈ some ph, ph'.OneLine := by
    rintro ph h ph' ⟨⟩
    exact h
  cases ph with
  | username p =>
    refine typed_sat h e (fun _ hp => hp) fun t ht => ?_
    exact hstay (.password t { hidden := true }) ⟨ht, List.not_mem_nil⟩
  | password user p => exact typed_sat h.2 e (fun _ hp => ⟨h.1, hp⟩) fun t ht => tryLogin_sat h.1 ht
  | form user entry q p next =>
    refine typed_sat h.1 e (fun _ hp => ⟨hp, h.2⟩) fun t ht => ?_
    exact (answer_sat (h.2 t ht)).bind fun ph hph => hstay ph hph
  | notice n next =>
    cases e with
    | key k => exact SatT.pure (ofNext_oneLine h)
    | _ => exact SatT.pure (hstay _ h)
  | menu user entries =>
    cases e with
    | key k =>
      refine SatT.bind (SatT.liftExcept (Q := fun _ => True) fun _ _ => trivial) fun r _ => ?_
      obtain ⟨entries, i⟩ := r
      cases i with
      | none => exact SatT.pure (hstay (.menu user entries) trivial)
      | some i =>
        dsimp only
        cases Entry.all[i]? with
        | none => exact SatT.pure (hstay (menuOf user) trivial)
        | some entry =>
          refine SatT.bind (SatT.lift (proceed_sat entry.form_always)) fun ph hph => ?_
          exact SatT.pure (hstay ph hph)
    | _ => exact SatT.pure (hstay _ h)
  | editor user path purpose s =>
    -- An event is no action that inserts a newline, so the editor stays sound whatever it is.
    obtain ⟨s', exit, hs, hsound, -⟩ := h.2.feed_spec (i := .event e) nofun
    refine SatT.bind (Q := (· = (s', exit))) (SatT.liftExcept ?_) ?_
    · intro r hr
      exact Except.ok.inj (hr.symm.trans hs)
    · rintro r rfl
      cases exit with
      | none => exact SatT.pure (hstay (.editor user path purpose s') ⟨h.1, hsound⟩)
      | some exit =>
        have hclose : (close service user path purpose (s'.finish exit)).Sat Command.OneLine OneLine :=
          close_sat h.1 (newline_not_mem_finish hsound exit)
        exact SatT.bind (SatT.lift hclose) fun ph hph => SatT.pure (hstay ph hph)
  | reader user path r =>
    simp only [step]
    cases r.handle e with
    | none => exact SatT.pure (hstay (menuOf user) trivial)
    | some r => exact SatT.pure (hstay (.reader user path r) trivial)

end Phase

/-! ### Runs -/

theorem runFrom_sat (size : Nat × Nat) (framesLeft : Option Nat) {ph : Phase} (h : ph.OneLine)
    (es : List Event) :
    SatT Command.OneLine (fun _ => True) (runFrom service size framesLeft ph es) := by
  have hframe : ∀ size (ph : Phase), SatT Command.OneLine (fun _ => True)
      (liftM (ph.frame size) : ExceptT Fault Dialogue Frame) :=
    fun _ _ => SatT.liftExcept fun _ _ => trivial
  induction es generalizing size framesLeft ph with
  | nil =>
    rw [runFrom_nil]
    split
    · trivial
    · exact (hframe size ph).bind fun _ _ => trivial
  | cons e es ih =>
    cases hused : e.isUsed with
    | false =>
      rw [runFrom_cons_of_not_isUsed _ _ _ _ hused]
      exact ih size framesLeft h
    | true =>
      rw [runFrom_cons_of_isUsed _ _ _ _ hused]
      split
      · trivial
      · refine (hframe size ph).bind fun f _ => (Phase.step_sat h e).bind fun next hnext => ?_
        cases next with
        | none => trivial
        | some ph =>
          exact (ih (sizeAfter size e) (framesLeft.map (· - 1)) (hnext ph rfl)).bind
            fun _ _ => SatT.pure trivial

theorem runProgram_sat (t : Terminal) {ph : Phase} (h : ph.OneLine) :
    SatT Command.OneLine (fun _ => True) (runProgram service t ph) := by
  unfold runProgram
  split
  · trivial
  · split
    · trivial
    · exact runFrom_sat t.size t.framesLeft h _

end StorageClient
