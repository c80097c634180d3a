import StorageClient.Proofs.Program.Faultless

/-!
One question of a run on its own: the prompt is drawn, an event is waited for and handed to it, and so
on until there is an answer. A run passes through this loop wherever it asks for a line.
-/

namespace StorageClient

structure Asked where
  frames : List Frame
  outcome : Except TerminalError Text
  /-- How many events are read, up to the one that answers. -/
  heard : Nat
  /-- The size of the terminal then. -/
  size : Nat × Nat
  framesLeft : Option Nat

namespace Prompt

def frameOn (p : Prompt) (title : Text) (size : Nat × Nat) : Except Fault Frame := do
  let (strokes, cursor) ← Phase.draw.prompt (screenOf size) title p
  return ⟨(Grid.blank (screenOf size)).draw strokes, cursor⟩

def after (p : Prompt) : Event → Prompt
  | .key k => match p.handle k with
    | .ok p => p
    | .error _ => p
  | _ => p

/-- Asks a question of a terminal: events are read until one answers it. -/
def ask (title : Text) (size : Nat × Nat) (framesLeft : Option Nat) (p : Prompt) :
    List Event → Except Fault Asked
  | [] =>
    if framesLeft = some 0 then return ⟨[], .error .draw, 0, size, framesLeft⟩
    else do return ⟨[← p.frameOn title size], .error .readEvent, 0, size, framesLeft⟩
  | e :: es =>
    if e.isUsed then
      if framesLeft = some 0 then return ⟨[], .error .draw, 0, size, framesLeft⟩
      else do
        let f ← p.frameOn title size
        match p.answer? e with
        | some t => return ⟨[f], .ok t, 1, sizeAfter size e, framesLeft⟩
        | none =>
          let a ← ask title (sizeAfter size e) (framesLeft.map (· - 1)) (p.after e) es
          return { a with frames := f :: a.frames, heard := a.heard + 1 }
    else do
      let a ← ask title size framesLeft p es
      return { a with heard := a.heard + 1 }

theorem frameOn_returns (p : Prompt) (title : Text) {size : Nat × Nat} (h : IsSize size) :
    Returns (p.frameOn title size) :=
  .bind_of (.bind_of (p.cursor_returns h.onScreen) fun _ =>
    .bind_of (p.draw_returns title h.onScreen) fun _ => .pure _) fun _ => .pure _

theorem ask_returns (title : Text) {size : Nat × Nat} (hsize : IsSize size)
    (framesLeft : Option Nat) (p : Prompt) {es : List Event}
    (hes : ∀ w h, .resize w h ∈ es → IsSize (w, h)) : Returns (p.ask title size framesLeft es) := by
  induction es generalizing size framesLeft p with
  | nil =>
    rw [ask]
    split
    · exact .pure _
    · exact .bind_of (p.frameOn_returns title hsize) fun _ => .pure _
  | cons e es ih =>
    obtain ⟨hsize', hes'⟩ := isSize_cons hsize hes
    rw [ask]
    split
    · split
      · exact .pure _
      · refine .bind_of (p.frameOn_returns title hsize) fun f => ?_
        cases p.answer? e with
        | some t => exact .pure _
        | none => exact .bind_of (ih hsize' _ _ hes') fun _ => .pure _
    · exact .bind_of (ih hsize _ _ hes') fun _ => .pure _

end Prompt

variable {m : Type → Type} [Monad m]

def Asked.resume (svc : Service m) (a : Asked) (es : List Event)
    (accept : Nat × Nat → Text → m (Option Phase)) : ExceptT Fault m Run :=
  match a.outcome with
  | .error e => return ⟨a.frames, .failed e, (es.drop a.heard).filter Event.isUsed⟩
  | .ok t => do
    match ← ExceptT.lift (accept a.size t) with
    | none => return ⟨a.frames, .finished, (es.drop a.heard).filter Event.isUsed⟩
    | some ph =>
      let r ← runFrom svc a.size (a.framesLeft.map (· - 1)) ph (es.drop a.heard)
      return { r with frames := a.frames ++ r.frames }

section Runs

variable {svc : Service m} {title : Text} {accept : Nat × Nat → Text → m (Option Phase)}

/-- At a question an event either answers or changes what has been typed. -/
theorem Phase.typed_eq (p : Prompt) (e : Event) (stay : Prompt → Phase)
    (accept : Text → m (Option Phase)) :
    typed p e stay accept = match p.answer? e with
      | some t => ExceptT.lift (accept t)
      | none => return some (stay (p.after e)) := by
  cases e with
  | key k =>
    unfold typed Prompt.answer? Prompt.after
    dsimp only
    cases p.handle k <;> rfl
  | _ => rfl

variable [LawfulMonad m]

theorem Asked.resume_cons (a : Asked) (f : Frame) (e : Event) (es : List Event) :
    ({ a with frames := f :: a.frames, heard := a.heard + 1 } : Asked).resume svc (e :: es) accept =
      do
        let r ← a.resume svc es accept
        return { r with frames := f :: r.frames } := by
  unfold resume
  dsimp only [List.drop_succ_cons]
  cases a.outcome with
  | error err => simp
  | ok t =>
    simp only [bind_assoc]
    refine bind_congr fun next => ?_
    cases next <;> simp

/-- A run that is at a question goes on as the question ends. -/
theorem runFrom_question (stay : Prompt → Phase)
    (hframe : ∀ p size, (stay p).frame size = p.frameOn title size)
    (hstep : ∀ p size e, (stay p).step svc size e = Phase.typed p e stay (accept size))
    (size : Nat × Nat) (framesLeft : Option Nat) (p : Prompt) (es : List Event) :
    runFrom svc size framesLeft (stay p) es =
      (do (← p.ask title size framesLeft es).resume svc es accept) := by
  induction es generalizing size framesLeft p with
  | nil =>
    rw [runFrom_nil, Prompt.ask, hframe]
    split
    · rw [liftM_pure, pure_bind]
      rfl
    · simp only [liftM_bind, liftM_pure, bind_assoc, pure_bind]
      rfl
  | cons e es ih =>
    cases hused : e.isUsed with
    | false =>
      rw [runFrom_cons_of_not_isUsed _ _ _ _ hused, ih, Prompt.ask, if_neg (by simp [hused])]
      simp only [liftM_bind, liftM_pure, bind_assoc, pure_bind]
      rfl
    | true =>
      rw [runFrom_cons_of_isUsed _ _ _ _ hused, Prompt.ask, if_pos hused, hframe, hstep,
        Phase.typed_eq]
      split
      · rw [liftM_pure, pure_bind]
        simp [Asked.resume, hused]
      · rw [liftM_bind, bind_assoc]
        refine bind_congr fun f => ?_
        cases p.answer? e with
        | some t =>
          dsimp only
          rw [liftM_pure, pure_bind]
          rfl
        | none =>
          -- The question stays, and the rest of the loop is behind this frame.
          dsimp only
          rw [pure_bind, liftM_bind, bind_assoc]
          dsimp only
          rw [ih, bind_assoc]
          refine bind_congr fun a => ?_
          rw [liftM_pure, pure_bind, Asked.resume_cons]

variable (svc)

theorem runFrom_password (size : Nat × Nat) (framesLeft : Option Nat) (user : Text) (p : Prompt)
    (es : List Event) :
    runFrom svc size framesLeft (.password user p) es =
      (do (← p.ask "Password:".toList size framesLeft es).resume svc es fun _ t =>
        Phase.tryLogin svc user t) :=
  runFrom_question (.password user) (fun _ _ => rfl) (fun _ _ _ => rfl) size framesLeft p es

theorem runFrom_form (size : Nat × Nat) (framesLeft : Option Nat) (user : Text) (entry : Entry)
    (q : Question) (p : Prompt) (next : Text → Form Task) (es : List Event) :
    runFrom svc size framesLeft (.form user entry q p next) es =
      (do (← p.ask q.title size framesLeft es).resume svc es fun size t => do
        return some (← Phase.answer svc size user entry q next t)) :=
  runFrom_question (.form user entry q · next) (fun _ _ => rfl) (fun _ _ _ => rfl) size framesLeft
    p es

end Runs

end StorageClient
