import StorageClient.Program.Phase

/-!
One event of an interactive run: the phase it leads to, and what is asked of the service on the
way.
-/

namespace StorageClient

namespace Phase
variable {m : Type → Type} [Monad m]

def perform (svc : Service m) (size : Nat × Nat) (user : Text) (entry : Entry) :
    Task → m Phase
  | .request c => tell (Flow.request svc entry.label c)
  | .listFiles dir => tell (Flow.listFiles svc dir)
  | .renameFile oldDir oldName newDir newName =>
    tell (Flow.renameFile svc oldDir oldName newDir newName)
  | .createFile path => return editorOf user path .create [] size
  | .readFile path => do
    match ← Flow.readForView svc path with
    | .ok content => return reader user path (.start content (.ofTerminal size.1 size.2))
    | .error n => return notice n (.menu user)
  | .editFile path => do
    let l ← Flow.loadForEdit svc path
    match l.warning with
    | some n => return notice n (.edit user path)
    | none => return editorOf user path .replace l.content size
  | .logout => do return notice (← Flow.logout svc) .leave
where
  /-- Shows a notice and goes back to the menu. -/
  tell (n : m Notice) : m Phase := do return notice (← n) (.menu user)

def proceed (svc : Service m) (size : Nat × Nat) (user : Text) (entry : Entry) :
    Form Task → m Phase
  | .done t => perform svc size user entry t
  | .ask q next => return form user entry q { hidden := q.hidden } next

/-- Uses both answers of the login. Two blank ones end the run. -/
def tryLogin (svc : Service m) (user password : Text) : m (Option Phase) := do
  if user = [] ∧ password = [] then return none
  match ← Flow.login svc user password with
  | .ok n => return some (notice n (.menu user))
  | .error n => return some (notice n .login)

def answer (svc : Service m) (size : Nat × Nat) (user : Text) (entry : Entry) (q : Question)
    (next : Text → Form Task) (t : Text) : m Phase :=
  if q.required ∧ t = [] then return menuOf user else proceed svc size user entry (next t)

def close (svc : Service m) (user path : Text) (purpose : Purpose) (text : Option Text) :
    m Phase := do
  let n ← match text, purpose with
    | some t, .create => Flow.createWithContent svc path t
    | some t, .replace => Flow.saveEdited svc path t
    | none, _ => pure .editCancelled
  return notice n (.menu user)

/-- A key at a question: the question with the longer answer, or what the answer leads to. -/
def typed (p : Prompt) (e : Event) (stay : Prompt → Phase)
    (accept : Text → m (Option Phase)) : ExceptT Fault m (Option Phase) :=
  match e with
  | .key k =>
    match p.handle k with
    | .ok p => return some (stay p)
    | .error t => ExceptT.lift (accept t)
  | _ => return some (stay p)

/-- One event. The size is that of the terminal, after the event if it is a new size. -/
def step (svc : Service m) (size : Nat × Nat) (ph : Phase) (e : Event) : ExceptT Fault m (Option Phase) :=
  match ph with
  | username p => typed p e username fun t => return some (password t { hidden := true })
  | password user p => typed p e (password user) (tryLogin svc user)
  | form user entry q p next =>
    typed p e (form user entry q · next) fun t => do
      return some (← answer svc size user entry q next t)
  | notice n next =>
    match e with
    | .key _ => return ofNext size next
    | _ => return some (notice n next)
  | menu user entries =>
    match e with
    | .key k => do
      match ← entries.handle k with
      | (entries, none) => return some (menu user entries)
      | (_, some i) =>
        match Entry.all[i]? with
        | some entry => return some (← ExceptT.lift (proceed svc size user entry entry.form))
        | none => return some (menuOf user)
    | _ => return some (menu user entries)
  | editor user path purpose s => do
    match ← s.handle e with
    | (s, none) => return some (editor user path purpose s)
    | (s, some exit) => return some (← ExceptT.lift (close svc user path purpose (s.finish exit)))
  | reader user path r =>
    match r.handle e with
    | some r => return some (reader user path r)
    | none => return some (menuOf user)

end Phase

end StorageClient
