import StorageClient.Proofs.Program.Log

/-!
What one event of a run can do, phase by phase: the commands that are sent, with their outcomes,
and the phase that comes of them. Nothing else is said of an event anywhere behind this module.
-/

namespace StorageClient

open Dialogue

/-! ### What an event decides -/

def Prompt.answer? (p : Prompt) : Event → Option Text
  | .key k => match p.handle k with
    | .ok _ => none
    | .error t => some t
  | _ => none

def Menu.chosen? (m : Menu) : Event → Option Entry
  | .key k => match m.handle k with
    | .ok (_, some i) => Entry.all[i]?
    | _ => none
  | _ => none

def Session.ended? (s : Session) (e : Event) : Option (Session × Exit) :=
  match s.handle e with
  | .ok (s, some exit) => some (s, exit)
  | _ => none

def Granted (o : Outcome) : Prop := ∃ d, o = .ok (.success d)

/-! ### Moves -/

/-- The command of a task that sends one and tells what came of it. -/
def Task.command? : Task → Option Command
  | .request c => some c
  | .listFiles dir => some (.listDir dir)
  | .renameFile oldDir oldName newDir newName =>
    some (.renameFile (Path.file oldDir oldName) (Path.file newDir newName))
  | .createFile _ | .readFile _ | .editFile _ | .logout => none

namespace Phase

inductive Performs (size : Nat × Nat) (user : Text) : Task → Log → Phase → Prop
  | tell {task : Task} {c : Command} (h : task.command? = some c) (o : Outcome) (n : Notice) :
      Performs size user task [(c, o)] (notice n (.menu user))
  | create (path : Text) :
      Performs size user (.createFile path) [] (editorOf user path .create [] size)
  | read (path : Text) (o : Outcome) (r : Reader) :
      Performs size user (.readFile path) [(.getFile path, o)] (reader user path r)
  | unread (path : Text) (o : Outcome) (n : Notice) :
      Performs size user (.readFile path) [(.getFile path, o)] (notice n (.menu user))
  | edit (path : Text) (o : Outcome) (content : Text) :
      Performs size user (.editFile path) [(.getFile path, o)]
        (editorOf user path .replace content size)
  | warn (path : Text) (o : Outcome) (n : Notice) :
      Performs size user (.editFile path) [(.getFile path, o)] (notice n (.edit user path))
  | logout (o : Outcome) (n : Notice) : Performs size user .logout [(.logout, o)] (notice n .leave)

inductive Proceeds (size : Nat × Nat) (user : Text) (entry : Entry) :
    Form Task → Log → Phase → Prop
  | ask (q : Question) (next : Text → Form Task) :
      Proceeds size user entry (.ask q next) [] (form user entry q { hidden := q.hidden } next)
  | perform {task : Task} {log : Log} {ph : Phase} (h : Performs size user task log ph) :
      Proceeds size user entry (.done task) log ph

inductive Closes (path : Text) : Purpose → Option Text → Log → Notice → Prop
  | cancel (purpose : Purpose) : Closes path purpose none [] .editCancelled
  | create (t : Text) (o : Outcome) {n : Notice} (hn : n ≠ .editCancelled) :
      Closes path .create (some t) [(.createFile path t, o)] n
  | replace (t : Text) (o o' : Outcome) {n : Notice} (hn : n ≠ .editCancelled) :
      Closes path .replace (some t) [(.deleteFile path, o), (.createFile path t, o')] n

/-- What one event can do. The size is that of the terminal after the event. -/
inductive Moves (size : Nat × Nat) : Phase → Event → Log → Option Phase → Prop
  | typeName {p : Prompt} {e : Event} (h : p.answer? e = none) (p' : Prompt) :
      Moves size (username p) e [] (some (username p'))
  | name {p : Prompt} {e : Event} {t : Text} (h : p.answer? e = some t) :
      Moves size (username p) e [] (some (password t { hidden := true }))
  | typePassword {user : Text} {p : Prompt} {e : Event} (h : p.answer? e = none) (p' : Prompt) :
      Moves size (password user p) e [] (some (password user p'))
  | quit {p : Prompt} {e : Event} (h : p.answer? e = some []) : Moves size (password [] p) e [] none
  | enter {user t : Text} {p : Prompt} {e : Event} {o : Outcome} (h : p.answer? e = some t)
      (hne : ¬(user = [] ∧ t = [])) (ho : Granted o) (n : Notice) :
      Moves size (password user p) e [(.login user t, o)] (some (notice n (.menu user)))
  | refuse {user t : Text} {p : Prompt} {e : Event} {o : Outcome} (h : p.answer? e = some t)
      (hne : ¬(user = [] ∧ t = [])) (ho : ¬Granted o) (n : Notice) :
      Moves size (password user p) e [(.login user t, o)] (some (notice n .login))
  | wait (n : Notice) (next : Next) (e : Event) :
      Moves size (notice n next) e [] (some (notice n next))
  | dismiss (n : Notice) (next : Next) (k : Key) :
      Moves size (notice n next) (.key k) [] (ofNext size next)
  | select {user : Text} {m : Menu} {e : Event} (h : m.chosen? e = none) (m' : Menu) :
      Moves size (menu user m) e [] (some (menu user m'))
  | choose {user : Text} {m : Menu} {e : Event} {entry : Entry} {log : Log} {ph : Phase}
      (h : m.chosen? e = some entry) (hp : Proceeds size user entry entry.form log ph) :
      Moves size (menu user m) e log (some ph)
  | typeAnswer {user : Text} {entry : Entry} {q : Question} {p : Prompt} {next : Text → Form Task}
      {e : Event} (h : p.answer? e = none) (p' : Prompt) :
      Moves size (form user entry q p next) e [] (some (form user entry q p' next))
  | giveUp {user : Text} {entry : Entry} {q : Question} {p : Prompt} {next : Text → Form Task}
      {e : Event} (h : p.answer? e = some []) (hq : q.required = true) :
      Moves size (form user entry q p next) e [] (some (menuOf user))
  | fill {user t : Text} {entry : Entry} {q : Question} {p : Prompt} {next : Text → Form Task}
      {e : Event} {log : Log} {ph : Phase} (h : p.answer? e = some t)
      (ht : ¬(q.required = true ∧ t = [])) (hp : Proceeds size user entry (next t) log ph) :
      Moves size (form user entry q p next) e log (some ph)
  | edit {user path : Text} {purpose : Purpose} {s : Session} {e : Event} (h : s.ended? e = none)
      (s' : Session) :
      Moves size (editor user path purpose s) e [] (some (editor user path purpose s'))
  | close {user path : Text} {purpose : Purpose} {s s' : Session} {exit : Exit} {e : Event}
      {log : Log} {n : Notice} (h : s.ended? e = some (s', exit))
      (hc : Closes path purpose (s'.finish exit) log n) :
      Moves size (editor user path purpose s) e log (some (notice n (.menu user)))
  | scroll (user path : Text) (r r' : Reader) (e : Event) :
      Moves size (reader user path r) e [] (some (reader user path r'))
  | shut (user path : Text) (r : Reader) (e : Event) :
      Moves size (reader user path r) e [] (some (menuOf user))

variable {size : Nat × Nat} {user path : Text} {entry : Entry} {log : Log}

theorem performs_of_comes {task : Task} {ph : Phase}
    (h : (perform service size user entry task).Comes log ph) : Performs size user task log ph := by
  cases task with
  | request c =>
    obtain ⟨o, rest, rfl, rfl, rfl⟩ := h
    exact .tell rfl o _
  | listFiles dir =>
    obtain ⟨o, rest, rfl, h⟩ := h
    rcases o with _ | _ | _ <;> obtain ⟨rfl, rfl⟩ := h <;> exact .tell rfl _ _
  | renameFile oldDir oldName newDir newName =>
    obtain ⟨o, rest, rfl, rfl, rfl⟩ := h
    exact .tell rfl o _
  | createFile path =>
    obtain ⟨rfl, rfl⟩ := h
    exact .create path
  | readFile path =>
    obtain ⟨o, rest, rfl, h⟩ := h
    rcases o with _ | _ | _ <;> obtain ⟨rfl, rfl⟩ := h
    · exact .unread path _ _
    · exact .read path _ _
    · exact .unread path _ _
  | editFile path =>
    obtain ⟨o, rest, rfl, h⟩ := h
    rcases o with _ | _ | _ <;> obtain ⟨rfl, rfl⟩ := h
    · exact .warn path _ _
    · exact .edit path _ _
    · exact .warn path _ _
  | logout =>
    obtain ⟨o, rest, rfl, h⟩ := h
    cases o <;> obtain ⟨rfl, rfl⟩ := h <;> exact .logout _ _

theorem proceeds_of_comes {f : Form Task} {ph : Phase}
    (h : (proceed service size user entry f).Comes log ph) : Proceeds size user entry f log ph := by
  cases f with
  | done task => exact .perform (performs_of_comes h)
  | ask q next =>
    obtain ⟨rfl, rfl⟩ := h
    exact .ask q next

/-- Nothing that is told of a request has the title for an edit that was given up. -/
theorem ne_editCancelled {n : Notice} {t : Text} (ht : n.title = t)
    (h : t ≠ Notice.editCancelled.title) : n ≠ .editCancelled := by
  rintro rfl
  exact h ht.symm

theorem closes_of_comes {purpose : Purpose} {text : Option Text} {ph : Phase}
    (h : (close service user path purpose text).Comes log ph) :
    ∃ n, ph = notice n (.menu user) ∧ Closes path purpose text log n := by
  cases text with
  | none =>
    obtain ⟨rfl, rfl⟩ := h
    exact ⟨_, rfl, .cancel purpose⟩
  | some t =>
    cases purpose with
    | create =>
      obtain ⟨o, rest, rfl, h⟩ := h
      rcases o with _ | _ | _ <;> obtain ⟨rfl, rfl⟩ := h
      · exact ⟨_, rfl,
          .create t _ (ne_editCancelled (t := "Connection error".toList) rfl (by decide))⟩
      · exact ⟨_, rfl, .create t _ (ne_editCancelled (t := "Success".toList) rfl (by decide))⟩
      · exact ⟨_, rfl, .create t _ (ne_editCancelled (t := "Error".toList) rfl (by decide))⟩
    | replace =>
      obtain ⟨o, rest, rfl, o', rest', rfl, h⟩ := h
      rcases o' with _ | _ | _ <;> obtain ⟨rfl, rfl⟩ := h
      · exact ⟨_, rfl,
          .replace t _ _ (ne_editCancelled (t := "Connection error".toList) rfl (by decide))⟩
      · exact ⟨_, rfl, .replace t _ _ (ne_editCancelled (t := "Success".toList) rfl (by decide))⟩
      · exact ⟨_, rfl, .replace t _ _ (ne_editCancelled (t := "Error".toList) rfl (by decide))⟩

theorem comes_typed {p : Prompt} {e : Event} {stay : Prompt → Phase}
    {accept : Text → Dialogue (Option Phase)} {r : Except Fault (Option Phase)}
    (h : (typed p e stay accept).run.Comes log r) :
    (p.answer? e = none ∧ log = [] ∧ ∃ p', r = .ok (some (stay p'))) ∨
      ∃ t next, p.answer? e = some t ∧ r = .ok next ∧ (accept t).Comes log next := by
  cases e with
  | key k =>
    unfold typed at h
    unfold Prompt.answer?
    dsimp only at h ⊢
    cases hk : p.handle k with
    | ok p' =>
      rw [hk] at h
      obtain ⟨rfl, rfl⟩ := h
      exact .inl ⟨rfl, rfl, p', rfl⟩
    | error t =>
      rw [hk] at h
      obtain ⟨next, rfl, hn⟩ := comes_lift h
      exact .inr ⟨t, next, rfl, rfl, hn⟩
  | _ =>
    obtain ⟨rfl, rfl⟩ := h
    exact .inl ⟨rfl, rfl, p, rfl⟩

theorem moves_tryLogin {p : Prompt} {e : Event} {t : Text} {next : Option Phase}
    (he : p.answer? e = some t) (h : (tryLogin service user t).Comes log next) :
    Moves size (password user p) e log next := by
  unfold tryLogin at h
  split at h
  · next hblank =>
    obtain ⟨rfl, rfl⟩ := hblank
    obtain ⟨rfl, rfl⟩ := h
    exact .quit he
  · next hne =>
    obtain ⟨o, rest, rfl, h⟩ := h
    rcases o with _ | _ | _ <;> obtain ⟨rfl, rfl⟩ := h
    · exact .refuse he hne (by rintro ⟨d, hd⟩; cases hd) _
    · exact .enter he hne ⟨_, rfl⟩ _
    · exact .refuse he hne (by rintro ⟨d, hd⟩; cases hd) _

theorem moves_answer {q : Question} {p : Prompt} {next : Text → Form Task} {e : Event} {t : Text}
    {ph : Phase} (he : p.answer? e = some t)
    (h : (answer service size user entry q next t).Comes log ph) :
    Moves size (form user entry q p next) e log (some ph) := by
  unfold answer at h
  split at h
  · next hblank =>
    obtain ⟨hq, rfl⟩ := hblank
    obtain ⟨rfl, rfl⟩ := h
    exact .giveUp he hq
  · next hne => exact .fill he hne (proceeds_of_comes h)

theorem moves_menu {m : Menu} {e : Event} {r : Except Fault (Option Phase)}
    (h : (step service size (menu user m) e).run.Comes log r) :
    (∃ fault, r = .error fault ∧ log = []) ∨
      ∃ next, r = .ok next ∧ Moves size (menu user m) e log next := by
  cases e with
  | key k =>
    rcases comes_bindT h with ⟨fault, rfl, hx⟩ | ⟨a, front, back, rfl, hx, h⟩
    · exact .inl ⟨fault, rfl, (comes_liftExcept hx).1⟩
    · obtain ⟨rfl, hm⟩ := comes_liftExcept hx
      obtain ⟨m', i⟩ := a
      refine .inr ?_
      cases i with
      | none =>
        obtain ⟨rfl, rfl⟩ := h
        exact ⟨_, rfl, .select (by simp [Menu.chosen?, ← hm]) m'⟩
      | some i =>
        dsimp only at h
        cases hi : Entry.all[i]? with
        | none =>
          rw [hi] at h
          obtain ⟨rfl, rfl⟩ := h
          exact ⟨_, rfl, .select (by simp [Menu.chosen?, ← hm, hi]) _⟩
        | some entry =>
          rw [hi] at h
          rcases comes_bindT h with ⟨fault, rfl, hx⟩ | ⟨ph, front, back, rfl, hx, rfl, rfl⟩
          · obtain ⟨_, hbad, -⟩ := comes_lift hx
            cases hbad
          · obtain ⟨_, ⟨⟩, hp⟩ := comes_lift hx
            have he : m.chosen? (.key k) = some entry := by simp [Menu.chosen?, ← hm, hi]
            exact ⟨_, rfl, .choose he (by simpa using proceeds_of_comes hp)⟩
  | _ =>
    obtain ⟨rfl, rfl⟩ := h
    exact .inr ⟨_, rfl, .select rfl m⟩

theorem moves_editor {purpose : Purpose} {s : Session} {e : Event} {r : Except Fault (Option Phase)}
    (h : (step service size (editor user path purpose s) e).run.Comes log r) :
    (∃ fault, r = .error fault ∧ log = []) ∨
      ∃ next, r = .ok next ∧ Moves size (editor user path purpose s) e log next := by
  rcases comes_bindT h with ⟨fault, rfl, hx⟩ | ⟨a, front, back, rfl, hx, h⟩
  · exact .inl ⟨fault, rfl, (comes_liftExcept hx).1⟩
  · obtain ⟨rfl, hs⟩ := comes_liftExcept hx
    obtain ⟨s', exit⟩ := a
    refine .inr ?_
    cases exit with
    | none =>
      obtain ⟨rfl, rfl⟩ := h
      exact ⟨_, rfl, .edit (by simp [Session.ended?, ← hs]) s'⟩
    | some exit =>
      rcases comes_bindT h with ⟨fault, rfl, hx⟩ | ⟨ph, front, back, rfl, hx, rfl, rfl⟩
      · obtain ⟨_, hbad, -⟩ := comes_lift hx
        cases hbad
      · obtain ⟨_, ⟨⟩, hp⟩ := comes_lift hx
        obtain ⟨n, rfl, hc⟩ := closes_of_comes hp
        have he : s.ended? e = some (s', exit) := by simp [Session.ended?, ← hs]
        exact ⟨_, rfl, .close he (by simpa using hc)⟩

/-- An event makes one of the moves of its phase, or ends in a fault before anything is sent. -/
theorem moves_of_comes {ph : Phase} {e : Event} {r : Except Fault (Option Phase)}
    (h : (ph.step service size e).run.Comes log r) :
    (∃ fault, r = .error fault ∧ log = []) ∨ ∃ next, r = .ok next ∧ Moves size ph e log next := by
  cases ph with
  | username p =>
    rcases comes_typed h with ⟨he, rfl, p', rfl⟩ | ⟨t, next, he, rfl, rfl, rfl⟩
    · exact .inr ⟨_, rfl, .typeName he p'⟩
    · exact .inr ⟨_, rfl, .name he⟩
  | password user p =>
    rcases comes_typed h with ⟨he, rfl, p', rfl⟩ | ⟨t, next, he, rfl, ht⟩
    · exact .inr ⟨_, rfl, .typePassword he p'⟩
    · exact .inr ⟨_, rfl, moves_tryLogin he ht⟩
  | form user entry q p next =>
    rcases comes_typed h with ⟨he, rfl, p', rfl⟩ | ⟨t, next', he, rfl, ht⟩
    · exact .inr ⟨_, rfl, .typeAnswer he p'⟩
    · obtain ⟨ph, front, back, rfl, ha, rfl, rfl⟩ := comes_bind ht
      exact .inr ⟨_, rfl, by simpa using moves_answer he ha⟩
  | notice n next =>
    cases e with
    | key k =>
      obtain ⟨rfl, rfl⟩ := h
      exact .inr ⟨_, rfl, .dismiss n next k⟩
    | _ =>
      obtain ⟨rfl, rfl⟩ := h
      exact .inr ⟨_, rfl, .wait n next _⟩
  | menu user m => exact moves_menu h
  | editor user path purpose s => exact moves_editor h
  | reader user path r' =>
    simp only [step] at h
    cases hr : r'.handle e with
    | none =>
      rw [hr] at h
      obtain ⟨rfl, rfl⟩ := h
      exact .inr ⟨_, rfl, .shut user path r' e⟩
    | some r'' =>
      rw [hr] at h
      obtain ⟨rfl, rfl⟩ := h
      exact .inr ⟨_, rfl, .scroll user path r' r'' e⟩

end Phase

end StorageClient
