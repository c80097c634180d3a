import Std.Async.DNS
import Std.Async.TCP
import StorageClient.Startup.Prepare
import StorageClient.Terminal.Keys
import StorageClient.Terminal.Paint

/-!
The client as a program. The terminal has to be in raw mode and its size is taken from the
environment; everything that is decided is decided in the other modules.
-/

namespace StorageClient.Main
open Std.Async

def string (t : Text) : String := String.ofList t

def causeOf : IO.Error → OsError
  | .noFileOrDirectory .. => .noSuchFile
  | .alreadyExists .. => .fileExists
  | .inappropriateType _ code _ => if code = 21 then .isADirectory else .notADirectory
  | .invalidArgument _ code _ => if code = 36 then .nameTooLong else .inputOutput
  | .resourceVanished code _ => if code = 32 then .brokenPipe else .connectionReset
  | _ => .inputOutput

def disk : Disk IO where
  read name := do
    match ← (IO.FS.readBinFile (string name)).toBaseIO with
    | .error e => return .error (.os (causeOf e))
    | .ok bytes =>
      match Utf8.decode? bytes.toList with
      | some t => return .ok t
      | none => return .error .notText
  isFile name := do return (← (IO.FS.readBinFile (string name)).toBaseIO).isOk
  makeDirs name := do
    match ← (IO.FS.createDirAll (string name)).toBaseIO with
    | .error e => return .error (causeOf e)
    | .ok () => return .ok ()
  append name := do
    match ← (IO.FS.Handle.mk (string name) .append).toBaseIO with
    | .error e => return .error (causeOf e)
    | .ok _ => return .ok ()

/-- Connects to the first address of a host that answers. -/
def connect (host : Text) (port : Nat) : IO TCP.Socket.Client := do
  let addresses ← (DNS.getAddrInfo (string host) (toString port)).block
  let mut failure := IO.userError "no address"
  for a in addresses do
    let socket ← TCP.Socket.Client.mk
    let target : Std.Net.SocketAddress := match a with
      | .v4 ip => .v4 ⟨ip, port.toUInt16⟩
      | .v6 ip => .v6 ⟨ip, port.toUInt16⟩
    match ← (socket.connect target).block.toBaseIO with
    | .ok () => return socket
    | .error e => failure := e
  throw failure

/-- Waits until a whole line has arrived, or the end of the stream. -/
partial def fill (socket : TCP.Socket.Client) (ch : Channel) : IO Channel := do
  if ch.incoming.contains 10 then return ch
  match ← (socket.recv? 4096).block.toBaseIO with
  | .ok (some bytes) => fill socket { ch with incoming := ch.incoming ++ bytes.toList }
  | .ok none => return ch
  | .error _ => return { ch with resetsAtEnd := true }

def service (socket : TCP.Socket.Client) (state : IO.Ref Channel) : Service IO := fun c => do
  if '\n' ∈ c.line then return .error .multiLine
  match ← (socket.send (string (c.line ++ ['\n'])).toUTF8).block.toBaseIO with
  | .error e => return .error (.send (causeOf e).message)
  | .ok () =>
    let (outcome, ch) := (← fill socket (← state.get)).readLine
    state.set ch
    return outcome

def nextEvents : IO (List Event) := do
  let bytes ← (← IO.getStdin).read 1024
  if bytes.isEmpty then throw (IO.userError (string TerminalError.readEvent.report))
  return (Keys.ofBytes bytes.toList).map .key

partial def interact (svc : Service IO) (size : Nat × Nat) (d : Display) (ph : Phase)
    (es : List Event) : IO Unit := do
  match es with
  | [] =>
    match ph.frame size with
    | .error _ => throw (IO.userError "out of range")
    | .ok f =>
      let out ← IO.getStdout
      out.putStr (string (Paint.frame d f))
      out.flush
      interact svc size (d.refresh f.grid) ph (← nextEvents)
  | e :: es =>
    match ← (ph.step svc size e).run with
    | .error _ => throw (IO.userError "out of range")
    | .ok none => return
    | .ok (some ph) => interact svc size d ph es

def run (c : Config) (size : Nat × Nat) : IO Unit := do
  IO.print (string (Paint.enter "FileVerse".toList))
  let d := Display.blank (screenOf size)
  try
    match ← (connect c.server.host c.server.port).toBaseIO with
    | .ok socket =>
      let state ← IO.mkRef ({ incoming := [] } : Channel)
      interact (service socket state) size d .login []
    | .error e =>
      let cause := match e with
        | .userError m => m.toList
        | _ => OsError.connectionRefused.message
      let n := notConnected c.server.host c.server.port cause
      let silent : Service IO := fun _ => return .error .closed
      interact silent size d (.notice n .leave) []
  finally
    IO.print (string Paint.leave)

def lookup (name : String) : IO (Option Text) := do
  return (← IO.getEnv name).map String.toList

def number (name : String) (otherwise : Nat) : IO Nat := do
  return ((← IO.getEnv name).bind String.toNat?).getD otherwise

end StorageClient.Main

open StorageClient in
def main (args : List String) : IO UInt32 := do
  let env : Environment := {
    home := ← Main.lookup "HOME"
    configHome := ← Main.lookup "XDG_CONFIG_HOME"
    stateHome := ← Main.lookup "XDG_STATE_HOME"
    temporary := ← Main.lookup "TMPDIR" }
  match ← Startup.prepare Main.disk env (args.map String.toList) with
  | .error s => do
    IO.print (Main.string s.output)
    if s.error ≠ [] then IO.eprintln (Main.string s.error)
    return s.status.toUInt32
  | .ok c => do
    let size := (← Main.number "COLUMNS" 80, ← Main.number "LINES" 24)
    match ← (Main.run c size).toBaseIO with
    | .ok () => return 0
    | .error e => do
      IO.eprintln (Main.string (Startup.runFailure (toString e).toList))
      return 1
