import StorageClient.Proofs.Program.Answers

/-!
What a service is asked and how it answers, kept as a log. A log is one way through a dialogue, and
keeping it changes nothing else.
-/

namespace StorageClient

abbrev Log := List (Command × Outcome)

namespace Dialogue

variable {α β : Type}

/-- The dialogue can be held as the log says, and come to `b`. -/
def Comes : Dialogue α → Log → α → Prop
  | done a, log, b => log = [] ∧ b = a
  | ask c next, log, b => ∃ o rest, log = (c, o) :: rest ∧ (next o).Comes rest b

theorem comes_bind {d : Dialogue α} {f : α → Dialogue β} {log : Log} {b : β}
    (h : (d >>= f).Comes log b) :
    ∃ a front back, log = front ++ back ∧ d.Comes front a ∧ (f a).Comes back b := by
  induction d generalizing log with
  | done a => exact ⟨a, [], log, rfl, ⟨rfl, rfl⟩, h⟩
  | ask c next ih =>
    obtain ⟨o, rest, rfl, h⟩ := h
    obtain ⟨a, front, back, rfl, hfront, hback⟩ := ih o h
    exact ⟨a, (c, o) :: front, back, rfl, ⟨o, front, rfl, hfront⟩, hback⟩

/-- What the dialogue comes to if it is answered as in the log, with the entries that it takes and
those that it leaves. -/
def follow : Dialogue α → Log → Option (α × Log × Log)
  | done a, log => some (a, [], log)
  | ask _ _, [] => none
  | ask c next, (_, o) :: log =>
    ((next o).follow log).map fun (a, front, back) => (a, (c, o) :: front, back)

/-- A log determines what the dialogue comes to. -/
theorem follow_of_comes {d : Dialogue α} {front : Log} {a : α} (h : d.Comes front a) (back : Log) :
    d.follow (front ++ back) = some (a, front, back) := by
  induction d generalizing front with
  | done a' =>
    obtain ⟨rfl, rfl⟩ := h
    rfl
  | ask c next ih =>
    obtain ⟨o, rest, rfl, h⟩ := h
    rw [List.cons_append, follow, ih o h]
    rfl

/-! ### Dialogues that may end in a fault -/

theorem comes_lift {d : Dialogue α} {log : Log} {r : Except Fault α}
    (h : (ExceptT.lift d).run.Comes log r) : ∃ a, r = .ok a ∧ d.Comes log a := by
  obtain ⟨a, front, back, rfl, hfront, rfl, rfl⟩ := comes_bind (f := fun a => done (Except.ok a)) h
  exact ⟨a, rfl, by rwa [List.append_nil]⟩

theorem comes_liftExcept {x : Except Fault α} {log : Log} {r : Except Fault α}
    (h : (liftM x : ExceptT Fault Dialogue α).run.Comes log r) : log = [] ∧ r = x := h

/-- Either the first part ends in the fault, or all goes on behind it. -/
theorem comes_bindT {x : ExceptT Fault Dialogue α} {f : α → ExceptT Fault Dialogue β} {log : Log}
    {r : Except Fault β} (h : (x >>= f).run.Comes log r) :
    (∃ fault, r = .error fault ∧ x.run.Comes log (.error fault)) ∨
      ∃ a front back, log = front ++ back ∧ x.run.Comes front (.ok a) ∧
        (f a).run.Comes back r := by
  obtain ⟨x', front, back, rfl, hfront, hback⟩ := comes_bind (d := x.run) h
  cases x' with
  | ok a => exact .inr ⟨a, front, back, rfl, hfront, hback⟩
  | error fault =>
    obtain ⟨rfl, rfl⟩ := hback
    exact .inl ⟨fault, rfl, by rwa [List.append_nil]⟩

end Dialogue

/-! ### A service that keeps a log -/

namespace Service

variable {σ : Type}

def logged (svc : Service (StateM σ)) : Service (StateM (σ × Log)) := fun c s =>
  let (o, s') := (svc c).run s.1
  (o, s', s.2 ++ [(c, o)])

theorem run_answer_logged {α : Type} (svc : Service (StateM σ)) (d : Dialogue α) (s : σ)
    (log : Log) : (d.answer svc).run s =
      (((d.answer svc.logged).run (s, log)).1, ((d.answer svc.logged).run (s, log)).2.1) :=
  Dialogue.run_answer_project (f := Prod.fst) (fun _ _ => rfl) d (s, log)

theorem comes_logged {α : Type} (svc : Service (StateM σ)) (d : Dialogue α) (s : σ) (log : Log) :
    ∃ new, ((d.answer svc.logged).run (s, log)).2.2 = log ++ new ∧
      d.Comes new ((d.answer svc.logged).run (s, log)).1 := by
  induction d generalizing s log with
  | done a => exact ⟨[], (List.append_nil log).symm, rfl, rfl⟩
  | ask c next ih =>
    obtain ⟨new, hlog, hcomes⟩ := ih ((svc c).run s).1 ((svc c).run s).2
      (log ++ [(c, ((svc c).run s).1)])
    exact ⟨_, hlog.trans (List.append_assoc log _ new), _, new, rfl, hcomes⟩

end Service

end StorageClient
