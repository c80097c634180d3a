import StorageClient.Fault
import StorageClient.Flow.Notice

/-!
Dialogues: what is asked of a service and how things go on, before anything answers. What holds
along all answers of a dialogue holds with every service.
-/

namespace StorageClient

/-- Commands, and what is done with their outcomes. -/
inductive Dialogue (α : Type) where
  | done (a : α)
  | ask (c : Command) (next : Outcome → Dialogue α)

namespace Dialogue

variable {α β : Type}

def bind : Dialogue α → (α → Dialogue β) → Dialogue β
  | done a, f => f a
  | ask c next, f => ask c fun o => (next o).bind f

instance : Monad Dialogue where
  pure := done
  bind := bind

def service : Service Dialogue := fun c => ask c done

section Answer

variable {m : Type → Type} [Monad m]

def answer (svc : Service m) : Dialogue α → m α
  | done a => pure a
  | ask c next => do (next (← svc c)).answer svc

def answerT (svc : Service m) (x : ExceptT Fault Dialogue α) : ExceptT Fault m α :=
  .mk (x.run.answer svc)

variable (svc : Service m)

theorem answer_pure (a : α) : (pure a : Dialogue α).answer svc = pure a := rfl

theorem answerT_pure (a : α) : answerT svc (pure a) = pure a := rfl

theorem answerT_liftExcept (x : Except Fault α) :
    answerT svc (liftM x : ExceptT Fault Dialogue α) = liftM x := rfl

variable [LawfulMonad m]

theorem answer_service (c : Command) : (service c).answer svc = svc c := by
  rw [service, answer]
  exact bind_pure (svc c)

theorem answer_bind (d : Dialogue α) (f : α → Dialogue β) :
    (d >>= f).answer svc = d.answer svc >>= fun a => (f a).answer svc := by
  induction d with
  | done a => exact (pure_bind a fun a => (f a).answer svc).symm
  | ask c next ih =>
    change (svc c >>= fun o => (next o >>= f).answer svc) = _
    rw [answer, bind_assoc]
    exact bind_congr fun o => ih o

theorem answer_service_bind (c : Command) (f : Outcome → Dialogue α) :
    (service c >>= f).answer svc = svc c >>= fun o => (f o).answer svc := by
  rw [answer_bind, answer_service]

theorem answerT_lift (d : Dialogue α) :
    answerT svc (ExceptT.lift d) = ExceptT.lift (d.answer svc) := by
  refine (answer_bind svc d fun a => pure (Except.ok a)).trans ?_
  exact bind_pure_comp Except.ok (d.answer svc)

theorem answerT_bind (x : ExceptT Fault Dialogue α) (f : α → ExceptT Fault Dialogue β) :
    answerT svc (x >>= f) = answerT svc x >>= fun a => answerT svc (f a) := by
  refine (answer_bind svc x.run _).trans (bind_congr fun r => ?_)
  cases r <;> rfl

end Answer

section Sat

variable {P : Command → Prop} {Q : α → Prop} {R : β → Prop}

/-- Every command of the dialogue satisfies `P` and every result `Q`, whatever is answered. -/
def Sat (P : Command → Prop) (Q : α → Prop) : Dialogue α → Prop
  | done a => Q a
  | ask c next => P c ∧ ∀ o, (next o).Sat P Q

theorem Sat.service {c : Command} (h : P c) : (service c).Sat P fun _ => True :=
  ⟨h, fun _ => trivial⟩

theorem Sat.bind {d : Dialogue α} {f : α → Dialogue β} (hd : d.Sat P Q)
    (hf : ∀ a, Q a → (f a).Sat P R) : (d >>= f).Sat P R := by
  induction d with
  | done a => exact hf a hd
  | ask c next ih => exact ⟨hd.1, fun o => ih o (hd.2 o)⟩

def OnOk (Q : α → Prop) : Except Fault α → Prop
  | .ok a => Q a
  | .error _ => True

def SatT (P : Command → Prop) (Q : α → Prop) (x : ExceptT Fault Dialogue α) : Prop :=
  x.run.Sat P (OnOk Q)

theorem SatT.pure {a : α} (h : Q a) : SatT P Q (pure a) := h

theorem SatT.lift {d : Dialogue α} (h : d.Sat P Q) : SatT P Q (ExceptT.lift d) :=
  Sat.bind h fun _ ha => ha

theorem SatT.liftExcept {x : Except Fault α} (h : ∀ a, x = .ok a → Q a) : SatT P Q (liftM x) := by
  cases x with
  | ok a => exact h a rfl
  | error _ => trivial

theorem SatT.bind {x : ExceptT Fault Dialogue α} {f : α → ExceptT Fault Dialogue β}
    (hx : SatT P Q x) (hf : ∀ a, Q a → SatT P R (f a)) : SatT P R (x >>= f) := by
  refine Sat.bind hx fun r hr => ?_
  cases r with
  | ok a => exact hf a hr
  | error _ => trivial

/-- What a service keeps true under commands that satisfy `P` is true behind the dialogue. -/
theorem Sat.run_answer {σ : Type} {svc : Service (StateM σ)} {I : σ → Prop}
    (hsvc : ∀ c s, P c → I s → I ((svc c).run s).2) {d : Dialogue α} (hd : d.Sat P Q) {s : σ}
    (hs : I s) : I ((d.answer svc).run s).2 ∧ Q ((d.answer svc).run s).1 := by
  induction d generalizing s with
  | done a => exact ⟨hs, hd⟩
  | ask c next ih => exact ih _ (hd.2 _) (hsvc c s hd.1 hs)

end Sat

theorem run_answer_project {σ τ : Type} {svc : Service (StateM σ)} {svc' : Service (StateM τ)}
    {f : σ → τ} (h : ∀ c s, (svc' c).run (f s) = (((svc c).run s).1, f ((svc c).run s).2))
    (d : Dialogue α) (s : σ) :
    (d.answer svc').run (f s) = (((d.answer svc).run s).1, f ((d.answer svc).run s).2) := by
  induction d generalizing s with
  | done a => rfl
  | ask c next ih =>
    have hask := ih ((svc c).run s).1 ((svc c).run s).2
    have hrun : ((ask c next).answer svc').run (f s) =
        ((next ((svc' c).run (f s)).1).answer svc').run ((svc' c).run (f s)).2 := rfl
    rw [hrun, h c s]
    exact hask

end Dialogue

end StorageClient
