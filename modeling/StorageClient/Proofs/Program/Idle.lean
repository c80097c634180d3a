import StorageClient.Startup.Launch
import StorageClient.Proofs.Program.Transcript

/-!
Reports of a terminal that the program has no use for: keys that come up, pasted text, and what the
focus and the mouse do. Most screens would take any key that reaches them, also one that comes up; so
it has to be kept from them wherever a run waits. Then it makes no difference how many such reports
stand between the others: a run shows the same, asks the same and ends the same way.
-/

namespace StorageClient

inductive Event.Idle : Event → Prop where
  | release {k : Key} (h : k.kind = .release) : Idle (.key k)
  | paste (t : Text) : Idle (.paste t)
  | focus (gained : Bool) : Idle (.focus gained)
  | mouse (x y : Nat) : Idle (.mouse x y)

theorem Event.idle_iff {e : Event} : e.Idle ↔ e.isUsed = false := by
  constructor
  · intro h
    cases h with
    | release h => simp [isUsed, h]
    | paste _ | focus _ | mouse _ _ => rfl
  · intro h
    cases e with
    | key k => exact .release (by simpa [isUsed] using h)
    | resize w h' => cases h
    | paste t => exact .paste t
    | focus gained => exact .focus gained
    | mouse x y => exact .mouse x y

/-- The second list is the first one with idle events put in, anywhere. -/
inductive Padded : List Event → List Event → Prop where
  | nil : Padded [] []
  | keep (e : Event) {es es' : List Event} (h : Padded es es') : Padded (e :: es) (e :: es')
  | idle {e : Event} (he : e.Idle) {es es' : List Event} (h : Padded es es') : Padded es (e :: es')

variable {es es' : List Event}

theorem Padded.filter_eq (h : Padded es es') :
    es'.filter Event.isUsed = es.filter Event.isUsed := by
  induction h with
  | nil => rfl
  | keep e _ ih => rw [List.filter_cons, List.filter_cons, ih]
  | idle he _ ih => rw [List.filter_cons_of_neg (by simp [Event.idle_iff.1 he]), ih]

section Runs

variable {m : Type → Type} [Monad m]

/-- No wait of a run ends at an idle event, whatever is on the screen. -/
theorem runFrom_padded (h : Padded es es') (svc : Service m) (size : Nat × Nat)
    (framesLeft : Option Nat) (ph : Phase) :
    runFrom svc size framesLeft ph es' = runFrom svc size framesLeft ph es := by
  induction h generalizing size framesLeft ph with
  | nil => rfl
  | idle he _ ih => rw [runFrom_cons_of_not_isUsed _ _ _ _ (Event.idle_iff.1 he), ih]
  | keep e h ih =>
    cases hused : e.isUsed with
    | false =>
      rw [runFrom_cons_of_not_isUsed _ _ _ _ hused, runFrom_cons_of_not_isUsed _ _ _ _ hused, ih]
    | true =>
      -- The event leads both runs to the same phase, and from there on they agree.
      rw [runFrom_cons_of_isUsed _ _ _ _ hused, runFrom_cons_of_isUsed _ _ _ _ hused, h.filter_eq]
      simp only [ih]

theorem runProgram_padded {t : Terminal} (h : Padded t.events es) (svc : Service m) (ph : Phase) :
    runProgram svc { t with events := es } ph = runProgram svc t ph := by
  rw [runProgram, runProgram, runFrom_padded h, h.filter_eq]

end Runs

/-- Idle events that a terminal reports besides the others make no difference to the program: not to
its frames and its ending, with a connection or without one, not to what is sent over the connection
and read from it, and not to the launch as a whole. -/
theorem runConnected_padded {t : Terminal} (h : Padded t.events es) (ch : Channel) :
    (runConnected { t with events := es }).run.run ch = (runConnected t).run.run ch ∧
      (∀ host port cause, (runRefused { t with events := es } host port cause).run.run ch =
        (runRefused t host port cause).run.run ch) ∧
      ∀ env args peer files, (Launch.start env args { t with events := es } peer).run files =
        (Launch.start env args t peer).run files := by
  have hconnected : runConnected { t with events := es } = runConnected t :=
    runProgram_padded h Channel.service .login
  have hrefused : ∀ host port cause,
      runRefused { t with events := es } host port cause = runRefused t host port cause :=
    fun _ _ _ => runProgram_padded h Channel.service _
  have hlaunch : ∀ c peer, Launch.run c { t with events := es } peer = Launch.run c t peer := by
    intro c peer
    simp only [Launch.run, hconnected, hrefused]
  refine ⟨by rw [hconnected], fun host port cause => by rw [hrefused], fun env args peer files => ?_⟩
  simp only [Launch.start, hlaunch]

/-- The short visit on a terminal that also tells of the mouse and of the keys that come up. -/
def restless : List Event :=
  [.focus true, .key { code := .char 'a' }, .key { code := .char 'a', kind := .release },
    .key { code := .enter }, .key { code := .enter, kind := .release }, .paste ['c', '\n'],
    .key { code := .char 'b' }, .mouse 3 4, .key { code := .enter },
    .key { code := .enter, kind := .release }]

theorem runConnected_padded_restless :
    Padded shortVisit.events restless ∧
      (runConnected { shortVisit with events := restless }).run.run { incoming := [] } =
        (runConnected shortVisit).run.run { incoming := [] } ∧
      ((runConnected { shortVisit with events := restless }).run.run { incoming := [] }).2.sent =
        "login a b\n".toList := by
  have h : Padded shortVisit.events restless := by
    refine .idle (.focus true) (.keep _ (.idle (.release rfl) (.keep _ (.idle (.release rfl) ?_))))
    exact .idle (.paste _) (.keep _ (.idle (.mouse 3 4) (.keep _ (.idle (.release rfl) .nil))))
  have hrun := (runConnected_padded h { incoming := [] }).1
  exact ⟨h, hrun, by rw [hrun]; rfl⟩

end StorageClient
