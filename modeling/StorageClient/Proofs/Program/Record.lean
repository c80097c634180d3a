import StorageClient.Proofs.Program.Moves

/-!
The record of a run: its turns, one for each event that it handles. Every run of the program has one
that agrees with its log, its frames, and its ending.
-/

namespace StorageClient

open Dialogue

structure Turn where
  /-- The size of the terminal before the event. -/
  size : Nat × Nat
  phase : Phase
  event : Event
  log : Log
  next : Option Phase

/-- The program does that at the event if it is so answered. -/
def Turn.Happens (u : Turn) : Prop :=
  (u.phase.step service (sizeAfter u.size u.event) u.event).run.Comes u.log (.ok u.next)

theorem Turn.Happens.moves {u : Turn} (h : u.Happens) :
    Phase.Moves (sizeAfter u.size u.event) u.phase u.event u.log u.next := by
  rcases Phase.moves_of_comes h with ⟨fault, hbad, -⟩ | ⟨next, hnext, hmoves⟩
  · cases hbad
  · rwa [Except.ok.inj hnext]

def Linked : Nat × Nat → Option Phase → List Turn → Prop
  | _, _, [] => True
  | size, ph, u :: us =>
    ph = some u.phase ∧ u.size = size ∧ u.Happens ∧ Linked (sizeAfter size u.event) u.next us

theorem eq_nil_of_linked_none {size : Nat × Nat} {us : List Turn} (h : Linked size none us) :
    us = [] := by
  cases us with
  | nil => rfl
  | cons u us => cases h.1

theorem happens_of_mem {size : Nat × Nat} {ph : Option Phase} {us : List Turn}
    (h : Linked size ph us) {u : Turn} (hu : u ∈ us) : u.Happens := by
  induction us generalizing size ph with
  | nil => cases hu
  | cons v vs ih =>
    obtain ⟨-, -, hv, hvs⟩ := h
    rcases List.mem_cons.1 hu with rfl | hu
    · exact hv
    · exact ih hvs hu

/-- Behind a turn that leads nowhere there is no other. -/
theorem getLast?_of_next_none {size : Nat × Nat} {ph : Option Phase} {us : List Turn}
    (h : Linked size ph us) {u : Turn} (hu : u ∈ us) (hn : u.next = none) :
    us.getLast? = some u := by
  induction us generalizing size ph with
  | nil => cases hu
  | cons v vs ih =>
    obtain ⟨-, -, -, hvs⟩ := h
    rcases List.mem_cons.1 hu with rfl | hu
    · rw [hn] at hvs
      rw [eq_nil_of_linked_none hvs]
      rfl
    · rw [List.getLast?_cons, ih hvs hu]
      rfl

/-- The turns that the events make from a phase on if the service answers as in the log. -/
def replay : Nat × Nat → Option Phase → List Event → Log → List Turn
  | size, some ph, e :: es, log =>
    match (ph.step service (sizeAfter size e) e).run.follow log with
    | some (.ok next, front, back) =>
      ⟨size, ph, e, front, next⟩ :: replay (sizeAfter size e) next es back
    | _ => []
  | _, _, _, _ => []

theorem eq_replay_of_linked {size : Nat × Nat} {ph : Option Phase} {us : List Turn}
    (h : Linked size ph us) : us = replay size ph (us.map Turn.event) (us.flatMap Turn.log) := by
  induction us generalizing size ph with
  | nil => cases ph <;> rfl
  | cons u us ih =>
    obtain ⟨rfl, rfl, hu, hus⟩ := h
    have hfollow := follow_of_comes hu (us.flatMap Turn.log)
    rw [List.map_cons, List.flatMap_cons, replay, hfollow]
    exact congrArg (u :: ·) (ih hus)

/-- The turns that a run makes from a phase on, with the events to come and all that it logs. -/
structure Records (size : Nat × Nat) (ph : Phase) (es : List Event) (log : Log)
    (r : Except Fault Run) (us : List Turn) : Prop where
  linked : Linked size (some ph) us
  logged : log = us.flatMap Turn.log
  heard : us.map Turn.event <+: es
  unused : ∀ run, r = .ok run → es = us.map Turn.event ++ run.unused
  drawn : ∀ run, r = .ok run →
    us.map (fun u => u.phase.frame u.size) = (run.frames.take us.length).map .ok
  finished : (∃ u ∈ us, u.next = none) ↔ ∃ run, r = .ok run ∧ run.ending = .finished

namespace Records

variable {size : Nat × Nat} {ph : Phase} {es : List Event} {log : Log}

/-- Once all events are used up, the turns are those that the log determines. -/
theorem eq_replay {r : Except Fault Run} {us : List Turn} (h : Records size ph es log r us)
    (hr : r.toOption.map Run.unused = some []) : us = replay size (some ph) es log := by
  cases r with
  | error => cases hr
  | ok run =>
    have hes := h.unused run rfl
    rw [Option.some.inj hr, List.append_nil] at hes
    rw [hes, h.logged]
    exact eq_replay_of_linked h.linked

theorem fault (fault : Fault) : Records size ph es [] (.error fault) [] where
  linked := trivial
  logged := rfl
  heard := List.nil_prefix
  unused := nofun
  drawn := nofun
  finished := by simp

theorem failed (frames : List Frame) (e : TerminalError) :
    Records size ph es [] (.ok ⟨frames, .failed e, es⟩) [] where
  linked := trivial
  logged := rfl
  heard := List.nil_prefix
  unused := by
    rintro run ⟨⟩
    rfl
  drawn := by
    rintro run ⟨⟩
    rfl
  finished := by simp

theorem finish (es : List Event) {u : Turn} (h : u.Happens) (hn : u.next = none) {f : Frame}
    (hf : u.phase.frame u.size = .ok f) :
    Records u.size u.phase (u.event :: es) u.log (.ok ⟨[f], .finished, es⟩) [u] where
  linked := ⟨rfl, rfl, h, trivial⟩
  logged := (List.append_nil u.log).symm
  heard := ⟨es, rfl⟩
  unused := by
    rintro run ⟨⟩
    rfl
  drawn := by
    rintro run ⟨⟩
    simp [hf]
  finished := ⟨fun _ => ⟨_, rfl, rfl⟩, fun _ => ⟨u, List.mem_singleton_self u, hn⟩⟩

theorem eq_ok_of_map {r : Except Fault Run} {f : Run → Run} {run : Run} (h : r.map f = .ok run) :
    ∃ run', r = .ok run' ∧ f run' = run := by
  cases r with
  | error => cases h
  | ok run' => exact ⟨run', rfl, Except.ok.inj h⟩

theorem cons {u : Turn} (h : u.Happens) {f : Frame} (hf : u.phase.frame u.size = .ok f)
    {ph : Phase} (hn : u.next = some ph) {r : Except Fault Run} {us : List Turn}
    (hus : Records (sizeAfter u.size u.event) ph es log r us) :
    Records u.size u.phase (u.event :: es) (u.log ++ log)
      (r.map fun run => { run with frames := f :: run.frames }) (u :: us) where
  linked := ⟨rfl, rfl, h, hn ▸ hus.linked⟩
  logged := by rw [hus.logged, List.flatMap_cons]
  heard := (List.prefix_cons_inj u.event).2 hus.heard
  unused := by
    intro run hrun
    obtain ⟨run', hr, rfl⟩ := eq_ok_of_map hrun
    simpa using hus.unused run' hr
  drawn := by
    intro run hrun
    obtain ⟨run', hr, rfl⟩ := eq_ok_of_map hrun
    simpa [hf] using hus.drawn run' hr
  finished := by
    have hhead : (∃ v ∈ u :: us, v.next = none) ↔ ∃ v ∈ us, v.next = none := by simp [hn]
    rw [hhead, hus.finished]
    constructor
    · rintro ⟨run, rfl, hend⟩
      exact ⟨_, rfl, hend⟩
    · rintro ⟨run, hrun, hend⟩
      obtain ⟨run', hr, rfl⟩ := eq_ok_of_map hrun
      exact ⟨run', hr, hend⟩

end Records

/-! ### Runs -/

theorem runFrom_records {size : Nat × Nat} {framesLeft : Option Nat} {ph : Phase} {es : List Event}
    {log : Log} {r : Except Fault Run}
    (h : (runFrom service size framesLeft ph es).run.Comes log r) :
    ∃ us, Records size ph (es.filter Event.isUsed) log r us := by
  induction es generalizing size framesLeft ph log r with
  | nil =>
    rw [runFrom_nil] at h
    split at h
    · obtain ⟨rfl, rfl⟩ := h
      exact ⟨[], .failed [] .draw⟩
    · rcases comes_bindT h with ⟨fault, rfl, hf⟩ | ⟨f, front, back, rfl, hf, rfl, rfl⟩
      · obtain ⟨rfl, -⟩ := comes_liftExcept hf
        exact ⟨[], .fault fault⟩
      · obtain ⟨rfl, -⟩ := comes_liftExcept hf
        exact ⟨[], .failed [f] .readEvent⟩
  | cons e es ih =>
    cases hused : e.isUsed with
    | false =>
      rw [runFrom_cons_of_not_isUsed _ _ _ _ hused] at h
      rw [List.filter_cons_of_neg (by simp [hused])]
      exact ih h
    | true =>
      rw [runFrom_cons_of_isUsed _ _ _ _ hused] at h
      rw [List.filter_cons_of_pos hused]
      split at h
      · obtain ⟨rfl, rfl⟩ := h
        exact ⟨[], .failed [] .draw⟩
      · rcases comes_bindT h with ⟨fault, rfl, hf⟩ | ⟨f, front, back, rfl, hf, hrest⟩
        · obtain ⟨rfl, -⟩ := comes_liftExcept hf
          exact ⟨[], .fault fault⟩
        · obtain ⟨rfl, hframe⟩ := comes_liftExcept hf
          rcases comes_bindT hrest with ⟨fault, rfl, hs⟩ | ⟨next, front, back, rfl, hs, hrest⟩
          · rcases Phase.moves_of_comes hs with ⟨-, -, rfl⟩ | ⟨next, hbad, -⟩
            · exact ⟨[], .fault fault⟩
            · cases hbad
          · -- The step is a turn, and whatever it leads to has its record.
            let u : Turn := ⟨size, ph, e, front, next⟩
            have hu : u.Happens := hs
            cases next with
            | none =>
              obtain ⟨rfl, rfl⟩ := hrest
              refine ⟨[u], ?_⟩
              simpa using Records.finish (es.filter Event.isUsed) hu rfl hframe.symm
            | some ph' =>
              rcases comes_bindT hrest with
                ⟨fault, rfl, hr⟩ | ⟨run, front', back', rfl, hr, rfl, rfl⟩
              · obtain ⟨us, hus⟩ := ih hr
                exact ⟨u :: us, .cons hu hframe.symm rfl hus⟩
              · obtain ⟨us, hus⟩ := ih hr
                refine ⟨u :: us, ?_⟩
                simp only [List.nil_append, List.append_nil]
                exact .cons hu hframe.symm rfl hus

theorem runProgram_records {t : Terminal} {ph : Phase} {log : Log} {r : Except Fault Run}
    (h : (runProgram service t ph).run.Comes log r) :
    ∃ us, Records t.size ph (t.events.filter Event.isUsed) log r us := by
  unfold runProgram at h
  split at h
  · obtain ⟨rfl, rfl⟩ := h
    exact ⟨[], .failed [] .enableRawMode⟩
  · split at h
    · obtain ⟨rfl, rfl⟩ := h
      exact ⟨[], .failed [] .enterScreen⟩
    · exact runFrom_records h

/-- A run that keeps a log goes as if it kept none, and has a record that agrees with the log. -/
theorem runProgram_logged {σ : Type} (svc : Service (StateM σ)) (t : Terminal) (ph : Phase)
    (s : σ) :
    let r := (runProgram svc.logged t ph).run.run (s, [])
    (runProgram svc t ph).run.run s = (r.1, r.2.1) ∧
      ∃ us, Records t.size ph (t.events.filter Event.isUsed) r.2.2 r.1 us := by
  have hplain := svc.run_answer_logged (runProgram service t ph).run s []
  obtain ⟨new, hlog, hcomes⟩ := svc.comes_logged (runProgram service t ph).run s []
  rw [List.nil_append] at hlog
  rw [← answerT_runProgram svc.logged, ← answerT_runProgram svc]
  refine ⟨hplain, ?_⟩
  obtain ⟨us, hus⟩ := runProgram_records hcomes
  exact ⟨us, hlog ▸ hus⟩

end StorageClient
