import StorageClient.Program.Step

/-!
A whole interactive run: a frame is drawn, one event is waited for and handled, and so on. What the
terminal does is a value: its size, its events, and where it fails.
-/

namespace StorageClient

/-- Where a terminal fails. Its size is always told: that no backend can be made for want of it, or
that a later query of it fails, is left out. -/
inductive TerminalError where
  | enableRawMode
  | enterScreen
  | draw
  | readEvent
deriving DecidableEq, Repr

/-- The text of a failure. Every one is an error of the device. -/
def TerminalError.report : TerminalError → Text
  | enableRawMode => entering ++ "enable raw mode failed: ".toList ++ cause
  | enterScreen => entering ++ "enter alternate screen failed: ".toList ++ cause
  | draw => "terminal draw failed: ".toList ++ cause
  | readEvent => "read terminal event failed: ".toList ++ cause
where
  entering : Text := "enter terminal failed: ".toList
  cause : Text := OsError.inputOutput.message

/-- A terminal: its size, which every query tells, what it reports, and how it fails. -/
structure Terminal where
  size : Nat × Nat
  events : List Event
  rawModeFails : Bool := false
  /-- How many frames can be written, if not all. -/
  framesLeft : Option Nat := none

structure Frame where
  grid : Grid
  cursor : Option (Nat × Nat)

def screenOf (size : Nat × Nat) : Rect := ⟨0, 0, size.1, size.2⟩

/-- The frame of a phase, drawn on an empty screen. -/
def Phase.frame (size : Nat × Nat) (ph : Phase) : Except Fault Frame := do
  let (strokes, cursor) ← ph.draw (screenOf size)
  return ⟨(Grid.blank (screenOf size)).draw strokes, cursor⟩

inductive Ending where
  | finished
  | failed (e : TerminalError)
deriving DecidableEq, Repr

/-- What a run shows, how it ends, and what it leaves of the events that it would have used. -/
structure Run where
  frames : List Frame
  ending : Ending
  unused : List Event

def sizeAfter (size : Nat × Nat) : Event → Nat × Nat
  | .resize w h => (w, h)
  | _ => size

variable {m : Type → Type} [Monad m]

/-- Draws a phase, if the terminal still can, and goes on with its frame on the screen. -/
def present (size : Nat × Nat) (framesLeft : Option Nat) (ph : Phase) (es : List Event)
    (next : Frame → ExceptT Fault m Run) : ExceptT Fault m Run :=
  if framesLeft = some 0 then return ⟨[], .failed .draw, es.filter Event.isUsed⟩
  else do next (← ph.frame size)

/-- Waits with the frame of a phase on the screen. Events are read one by one; the first that is used
goes to the phase, and those before it are dropped. When there are no more, reading fails. -/
def waitFrom (svc : Service m) (size : Nat × Nat) (framesLeft : Option Nat) (ph : Phase) (f : Frame) :
    List Event → ExceptT Fault m Run
  | [] => return ⟨[f], .failed .readEvent, []⟩
  | e :: es =>
    if e.isUsed then do
      let size := sizeAfter size e
      match ← ph.step svc size e with
      | none => return ⟨[f], .finished, es.filter Event.isUsed⟩
      | some ph =>
        let left := framesLeft.map (· - 1)
        let r ← present size left ph es fun f => waitFrom svc size left ph f es
        return { r with frames := f :: r.frames }
    else waitFrom svc size framesLeft ph f es

def runFrom (svc : Service m) (size : Nat × Nat) (framesLeft : Option Nat) (ph : Phase)
    (es : List Event) : ExceptT Fault m Run :=
  present size framesLeft ph es fun f => waitFrom svc size framesLeft ph f es

section Turns

variable (svc : Service m) (size : Nat × Nat) (framesLeft : Option Nat) (ph : Phase)

theorem runFrom_nil : runFrom svc size framesLeft ph [] =
    if framesLeft = some 0 then return ⟨[], .failed .draw, []⟩
    else do return ⟨[← ph.frame size], .failed .readEvent, []⟩ := rfl

/-- One turn of a run: the phase is drawn, and the event leads on from it. -/
theorem runFrom_cons_of_isUsed {e : Event} (h : e.isUsed = true) (es : List Event) :
    runFrom svc size framesLeft ph (e :: es) =
      if framesLeft = some 0 then return ⟨[], .failed .draw, e :: es.filter Event.isUsed⟩
      else do
        let f ← ph.frame size
        match ← ph.step svc (sizeAfter size e) e with
        | none => return ⟨[f], .finished, es.filter Event.isUsed⟩
        | some ph =>
          let r ← runFrom svc (sizeAfter size e) (framesLeft.map (· - 1)) ph es
          return { r with frames := f :: r.frames } := by
  simp only [runFrom, present, waitFrom, h, if_true, List.filter_cons_of_pos]

/-- An event that is not used does not even redraw the screen. -/
theorem runFrom_cons_of_not_isUsed {e : Event} (h : e.isUsed = false) (es : List Event) :
    runFrom svc size framesLeft ph (e :: es) = runFrom svc size framesLeft ph es := by
  simp only [runFrom, present, waitFrom, h, List.filter_cons, Bool.false_eq_true, if_false]

end Turns

def notConnected (host : Text) (port : Nat) (cause : Text) : Notice :=
  let address := host ++ ':' :: Nat.toDigits 10 port
  ⟨"Connection failed".toList, "Failed to connect to server ".toList ++ address ++ " - ".toList ++
    (TransportError.connect address cause).report⟩

def runProgram (svc : Service m) (t : Terminal) (ph : Phase) : ExceptT Fault m Run :=
  if t.rawModeFails then return ⟨[], .failed .enableRawMode, t.events.filter Event.isUsed⟩
  else if t.framesLeft = some 0 then return ⟨[], .failed .enterScreen, t.events.filter Event.isUsed⟩
  else runFrom svc t.size t.framesLeft ph t.events

def Channel.service : Service (StateM Channel) := fun c ch => ch.send c.line

def runConnected (t : Terminal) : ExceptT Fault (StateM Channel) Run :=
  runProgram Channel.service t .login

/-- An interactive run without a connection: it says so and ends. -/
def runRefused (t : Terminal) (host : Text) (port : Nat) (cause : Text) :
    ExceptT Fault (StateM Channel) Run :=
  runProgram Channel.service t (.notice (notConnected host port cause) .leave)

end StorageClient
