import StorageClient.Program.Run
import StorageClient.Proofs.Program.Dialogue

/-!
Every run is a dialogue held with its service: the flows, the steps and the runs ask the same in
the same order, whatever they are run in.
-/

namespace StorageClient.Dialogue

variable {m : Type → Type} [Monad m] [LawfulMonad m] (svc : Service m)

/-! ### Flows -/

theorem answer_request (title : Text) (c : Command) :
    (Flow.request service title c).answer svc = Flow.request svc title c :=
  answer_service_bind svc c _

theorem answer_listFiles (dir : Text) :
    (Flow.listFiles service dir).answer svc = Flow.listFiles svc dir := by
  refine (answer_service_bind svc _ _).trans (bind_congr fun o => ?_)
  rcases o with _ | _ | _ <;> rfl

theorem answer_login (user password : Text) :
    (Flow.login service user password).answer svc = Flow.login svc user password := by
  refine (answer_service_bind svc _ _).trans (bind_congr fun o => ?_)
  rcases o with _ | _ | _ <;> rfl

theorem answer_logout : (Flow.logout service).answer svc = Flow.logout svc := by
  refine (answer_service_bind svc _ _).trans (bind_congr fun o => ?_)
  cases o <;> rfl

theorem answer_readForView (path : Text) :
    (Flow.readForView service path).answer svc = Flow.readForView svc path := by
  refine (answer_service_bind svc _ _).trans (bind_congr fun o => ?_)
  rcases o with _ | _ | _ <;> rfl

theorem answer_loadForEdit (path : Text) :
    (Flow.loadForEdit service path).answer svc = Flow.loadForEdit svc path := by
  refine (answer_service_bind svc _ _).trans (bind_congr fun o => ?_)
  rcases o with _ | _ | _ <;> rfl

theorem answer_saveEdited (path content : Text) :
    (Flow.saveEdited service path content).answer svc = Flow.saveEdited svc path content := by
  refine (answer_service_bind svc _ _).trans (bind_congr fun _ => ?_)
  refine (answer_service_bind svc _ _).trans (bind_congr fun o => ?_)
  rcases o with _ | _ | _ <;> rfl

theorem answer_createWithContent (path content : Text) :
    (Flow.createWithContent service path content).answer svc =
      Flow.createWithContent svc path content := by
  refine (answer_service_bind svc _ _).trans (bind_congr fun o => ?_)
  rcases o with _ | _ | _ <;> rfl

/-! ### Steps -/

theorem answer_tell (user : Text) (n : Dialogue Notice) :
    (Phase.perform.tell user n).answer svc = Phase.perform.tell user (n.answer svc) := by
  simp only [Phase.perform.tell, answer_bind, answer_pure]

theorem answer_perform (size : Nat × Nat) (user : Text) (entry : Entry) (task : Task) :
    (Phase.perform service size user entry task).answer svc =
      Phase.perform svc size user entry task := by
  cases task with
  | request c => rw [Phase.perform, answer_tell, answer_request]; rfl
  | listFiles dir => rw [Phase.perform, answer_tell, answer_listFiles]; rfl
  | renameFile oldDir oldName newDir newName =>
    rw [Phase.perform, answer_tell, Flow.renameFile, answer_request]
    rfl
  | createFile path => rfl
  | readFile path =>
    simp only [Phase.perform, answer_bind, answer_readForView]
    refine bind_congr fun r => ?_
    cases r <;> rfl
  | editFile path =>
    simp only [Phase.perform, answer_bind, answer_loadForEdit]
    refine bind_congr fun l => ?_
    cases l.warning <;> rfl
  | logout => simp only [Phase.perform, answer_bind, answer_logout, answer_pure]

theorem answer_proceed (size : Nat × Nat) (user : Text) (entry : Entry) (form : Form Task) :
    (Phase.proceed service size user entry form).answer svc =
      Phase.proceed svc size user entry form := by
  cases form with
  | done task => exact answer_perform svc size user entry task
  | ask q next => rfl

theorem answer_tryLogin (user password : Text) :
    (Phase.tryLogin service user password).answer svc = Phase.tryLogin svc user password := by
  unfold Phase.tryLogin
  split
  · rfl
  · simp only [answer_bind, answer_login]
    refine bind_congr fun r => ?_
    cases r <;> rfl

theorem answer_answer (size : Nat × Nat) (user : Text) (entry : Entry) (q : Question)
    (next : Text → Form Task) (t : Text) :
    (Phase.answer service size user entry q next t).answer svc =
      Phase.answer svc size user entry q next t := by
  unfold Phase.answer
  split
  · rfl
  · exact answer_proceed svc size user entry (next t)

theorem answer_close (user path : Text) (purpose : Purpose) (text : Option Text) :
    (Phase.close service user path purpose text).answer svc =
      Phase.close svc user path purpose text := by
  unfold Phase.close
  cases text with
  | none => simp only [answer_bind, answer_pure]
  | some t =>
    cases purpose with
    | create => simp only [answer_bind, answer_createWithContent, answer_pure]
    | replace => simp only [answer_bind, answer_saveEdited, answer_pure]

theorem answerT_typed (p : Prompt) (e : Event) (stay : Prompt → Phase)
    (accept : Text → Dialogue (Option Phase)) :
    answerT svc (Phase.typed p e stay accept) =
      Phase.typed p e stay fun t => (accept t).answer svc := by
  unfold Phase.typed
  cases e with
  | key k =>
    dsimp only
    cases p.handle k with
    | ok p => rfl
    | error t => exact answerT_lift svc (accept t)
  | _ => rfl

theorem answerT_step (size : Nat × Nat) (ph : Phase) (e : Event) :
    answerT svc (ph.step service size e) = ph.step svc size e := by
  cases ph with
  | username p => exact answerT_typed svc p e _ _
  | password user p =>
    simp only [Phase.step, answerT_typed, answer_tryLogin]
  | form user entry q p next =>
    simp only [Phase.step, answerT_typed, answer_bind, answer_answer, answer_pure]
  | notice n next => cases e <;> rfl
  | menu user entries =>
    cases e with
    | key k =>
      simp only [Phase.step, answerT_bind, answerT_liftExcept]
      refine bind_congr fun r => ?_
      obtain ⟨entries, i⟩ := r
      cases i with
      | none => rfl
      | some i =>
        dsimp only
        cases Entry.all[i]? with
        | none => rfl
        | some entry => simp only [answerT_bind, answerT_lift, answer_proceed, answerT_pure]
    | _ => rfl
  | editor user path purpose s =>
    simp only [Phase.step, answerT_bind, answerT_liftExcept]
    refine bind_congr fun r => ?_
    obtain ⟨s, exit⟩ := r
    cases exit with
    | none => rfl
    | some exit => simp only [answerT_bind, answerT_lift, answer_close, answerT_pure]
  | reader user path r =>
    simp only [Phase.step]
    cases r.handle e <;> rfl

/-! ### Runs -/

theorem answerT_runFrom (size : Nat × Nat) (framesLeft : Option Nat) (ph : Phase)
    (es : List Event) :
    answerT svc (runFrom service size framesLeft ph es) = runFrom svc size framesLeft ph es := by
  induction es generalizing size framesLeft ph with
  | nil =>
    rw [runFrom_nil, runFrom_nil]
    split
    · rfl
    · simp only [answerT_bind, answerT_liftExcept, answerT_pure]
  | cons e es ih =>
    cases hused : e.isUsed with
    | false =>
      simp only [runFrom_cons_of_not_isUsed _ _ _ _ hused]
      exact ih size framesLeft ph
    | true =>
      simp only [runFrom_cons_of_isUsed _ _ _ _ hused]
      split
      · rfl
      · simp only [answerT_bind, answerT_liftExcept, answerT_step]
        refine bind_congr fun f => bind_congr fun next => ?_
        cases next with
        | none => rfl
        | some ph => simp only [answerT_bind, ih, answerT_pure]

/-- A run is its dialogue, held with the service. -/
theorem answerT_runProgram (t : Terminal) (ph : Phase) :
    answerT svc (runProgram service t ph) = runProgram svc t ph := by
  unfold runProgram
  split
  · rfl
  · split
    · rfl
    · exact answerT_runFrom svc _ _ ph _

end StorageClient.Dialogue
