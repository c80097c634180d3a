import StorageClient.Program.Run
import StorageClient.Startup.FileTree
import StorageClient.Startup.Prepare

/-!
The whole program: from its arguments to its exit status.
-/

namespace StorageClient

structure Launch where
  status : Nat
  output : Text := []
  error : Text := []
  /-- The port that a connection was tried at. -/
  port : Option Nat := none
  frames : List Frame := []
  unused : List Event := []
  sent : Text := []

namespace Launch

def ofStop (s : Stop) : Launch := { status := s.status, output := s.output, error := s.error }

def ofRun (port : Nat) (r : Run) (ch : Channel) : Launch :=
  let p : Launch :=
    { status := 0, port := some port, frames := r.frames, unused := r.unused, sent := ch.sent }
  match r.ending with
  | .finished => p
  | .failed e =>
    let failed := { p with status := 1, error := Startup.runFailure e.report }
    match e with
    | .enableRawMode | .enterScreen => { failed with port := none }
    | .draw | .readEvent => failed

/-- Runs the program with the given settings. Without a peer every connection is refused. -/
def run (c : Config) (t : Terminal) (peer : Option Channel) : Except Fault Launch := do
  let (r, ch) := match peer with
    | some ch => (runConnected t).run ch
    | none => (runRefused t c.server.host c.server.port OsError.connectionRefused.message).run
        { incoming := [] }
  return ofRun c.server.port (← r) ch

def start (env : Environment) (args : List Text) (t : Terminal) (peer : Option Channel) :
    StateM FileTree (Except Fault Launch) := do
  match ← Startup.prepare FileTree.disk env args with
  | .error s => return .ok (ofStop s)
  | .ok c => return run c t peer

end Launch

end StorageClient
