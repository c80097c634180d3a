import StorageClient.OsError
import StorageClient.Text.Utf8
import StorageClient.Wire.Reply

/-!
The line transport: each command goes out as one line, and one line comes back. The peer is the
byte stream it sends and what it does with the bytes it gets.
-/

namespace StorageClient

inductive TransportError where
  | connect (address : Text) (cause : Text)
  | multiLine
  | send (cause : Text)
  | receive (cause : Text)
  | closed
deriving DecidableEq, Repr

namespace TransportError

def message : TransportError → Text
  | connect a _ => "connect to ".toList ++ a ++ " failed".toList
  | multiLine => "command must fit on a single line".toList
  | send _ => "send command failed".toList
  | receive _ => "receive reply failed".toList
  | closed => "connection closed by server".toList

def cause? : TransportError → Option Text
  | connect _ c | send c | receive c => some c
  | multiLine | closed => none

def report (e : TransportError) : Text :=
  match e.cause? with
  | some c => e.message ++ ": ".toList ++ c
  | none => e.message

end TransportError

abbrev Outcome := Except TransportError Reply

structure Channel where
  incoming : List UInt8
  sent : Text := []
  /-- How many more writes succeed, if they do not all. -/
  writesLeft : Option Nat := none
  /-- Whether the stream ends in a reset. -/
  resetsAtEnd : Bool := false

namespace Channel

/-- The bytes up to and including the first newline, and those after it. The first part is all
there is when there is no newline. -/
def splitLine : List UInt8 → List UInt8 × List UInt8
  | [] => ([], [])
  | b :: bs => if b = 10 then ([b], bs) else ((b :: (splitLine bs).1), (splitLine bs).2)

def isTerminated (bs : List UInt8) : Bool := bs.getLast? == some 10

def write (ch : Channel) (line : Text) : Option Channel :=
  match ch.writesLeft with
  | some 0 => none
  | left => some { ch with sent := ch.sent ++ line ++ ['\n'], writesLeft := left.map (· - 1) }

/-- Reads a line. The last one may lack its newline, unless a reset ends the stream. -/
def readLine (ch : Channel) : Outcome × Channel :=
  let (line, rest) := splitLine ch.incoming
  let ch := { ch with incoming := rest }
  if ch.resetsAtEnd ∧ !isTerminated line then
    (.error (.receive OsError.connectionReset.message), ch)
  else if line = [] then (.error .closed, ch)
  else (.ok (.read (Utf8.decodeLossy line)), ch)

/-- Sends a command and reads its reply. A text of several lines is not sent at all. -/
def send (ch : Channel) (command : Text) : Outcome × Channel :=
  if '\n' ∈ command then (.error .multiLine, ch)
  else match ch.write command with
    | none => (.error (.send OsError.brokenPipe.message), ch)
    | some ch => ch.readLine

end Channel

end StorageClient
