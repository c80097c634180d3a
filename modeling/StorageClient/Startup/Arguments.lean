import StorageClient.Config
import StorageClient.Fault
import StorageClient.Terminal.Sequence

/-!
The command line: options with a value, the two flags that only print something, and what is wrong
with arguments that are neither. The first thing that is printed or wrong, in the order of the
arguments, decides.
-/

namespace StorageClient

inductive OptionName where
  | host
  | port
  | config
  | logFilter
deriving DecidableEq, Repr

structure Options where
  host : Option Text := none
  port : Option Nat := none
  config : Option Text := none
  logFilter : Option Text := none
deriving DecidableEq, Repr

inductive PortError where
  | empty
  | notADigit
  | tooLarge
  | tooSmall
  | outOfRange (n : Int)
deriving DecidableEq, Repr

inductive UsageError where
  | unexpectedArgument (arg : Text)
  | unexpectedValue (value flag : Text)
  | missingValue (o : OptionName)
  | repeated (o : OptionName)
  | badPort (value : Text) (why : PortError)
deriving DecidableEq, Repr

inductive Usage where
  | help
  | version
  | error (e : UsageError)
deriving DecidableEq, Repr

def OptionName.shown : OptionName → Text
  | host => "--host <HOST>".toList
  | port => "--port <PORT>".toList
  | config => "--config <CONFIG>".toList
  | logFilter => "--log-filter <LOG_FILTER>".toList

def PortError.decimal (n : Int) : Text :=
  if n < 0 then '-' :: Nat.toDigits 10 n.natAbs else Nat.toDigits 10 n.natAbs

def PortError.message : PortError → Text
  | empty => "cannot parse integer from empty string".toList
  | notADigit => "invalid digit found in string".toList
  | tooLarge => "number too large to fit in target type".toList
  | tooSmall => "number too small to fit in target type".toList
  | outOfRange n => decimal n ++ " is not in 0..=65535".toList

/-- A text between single quotes. What it does to a terminal is left out. -/
def UsageError.quoted (t : Text) : Text := '\'' :: Sequence.strip t ++ ['\'']

def UsageError.message : UsageError → Text
  | unexpectedArgument a => "unexpected argument ".toList ++ quoted a ++ " found".toList
  | unexpectedValue v f => "unexpected value ".toList ++ quoted v ++ " for ".toList ++ quoted f ++
      " found; no more were expected".toList
  | missingValue o => "a value is required for ".toList ++ quoted o.shown ++
      " but none was supplied".toList
  | repeated o => "the argument ".toList ++ quoted o.shown ++
      " cannot be used multiple times".toList
  | badPort v why => "invalid value ".toList ++ quoted v ++ " for ".toList ++
      quoted OptionName.port.shown ++ ": ".toList ++ why.message

namespace Arguments

def help : Text :=
  ("Terminal client for the FileVerse remote file-storage service\n\n" ++
   "Usage: fileverse [OPTIONS]\n\n" ++
   "Options:\n" ++
   "      --host <HOST>              Server host name or address\n" ++
   "      --port <PORT>              Server port\n" ++
   "      --config <CONFIG>          Configuration file; defaults to the user config directory\n" ++
   "      --log-filter <LOG_FILTER>  Log filter, e.g. `info` or `fileverse=debug`. " ++
   "`RUST_LOG` takes precedence\n" ++
   "  -h, --help                     Print help\n" ++
   "  -V, --version                  Print version\n").toList

def version : Text := "fileverse 0.0.3\n".toList

/-- The digits of a number read from the left, as long as it fits a signed word of 64 bits. -/
def digits (negative : Bool) (n : Nat) : Text → Except PortError Nat
  | [] => .ok n
  | c :: t =>
    if !c.isDigit then .error .notADigit
    else
      let n := n * 10 + (c.toNat - 48)
      if negative ∧ Word.half64 < n then .error .tooSmall
      else if !negative ∧ Word.half64 ≤ n then .error .tooLarge
      else digits negative n t

def wholeNumber : Text → Except PortError Int
  | [] => .error .empty
  | ['-'] | ['+'] => .error .notADigit
  | '-' :: t => do return -(← digits true 0 t : Nat)
  | '+' :: t => do return (← digits false 0 t : Nat)
  | t => do return (← digits false 0 t : Nat)

def port (t : Text) : Except PortError Nat := do
  let n ← wholeNumber t
  if 0 ≤ n ∧ n ≤ 65535 then return n.toNat else throw (.outOfRange n)

def isSet (o : OptionName) (s : Options) : Bool :=
  match o with
  | .host => s.host.isSome
  | .port => s.port.isSome
  | .config => s.config.isSome
  | .logFilter => s.logFilter.isSome

/-- Sets an option for the first time. -/
def set (o : OptionName) (v : Text) (s : Options) : Except Usage Options :=
  if isSet o s then .error (.error (.repeated o))
  else match o with
    | .host => .ok { s with host := some v }
    | .port =>
      match port v with
      | .ok n => .ok { s with port := some n }
      | .error e => .error (.error (.badPort v e))
    | .config => if v = [] then .error (.error (.missingValue o)) else .ok { s with config := some v }
    | .logFilter => .ok { s with logFilter := some v }

/-- An option whose value has not been looked at yet. -/
abbrev Pending := Option (OptionName × Option Text)

/-- Looks at the value of the option before. -/
def settle (p : Pending) (s : Options) : Except Usage Options :=
  match p with
  | none => .ok s
  | some (o, none) => .error (.error (.missingValue o))
  | some (o, some v) => set o v s

def named (name : Text) : Option OptionName :=
  if name = "host".toList then some .host
  else if name = "port".toList then some .port
  else if name = "config".toList then some .config
  else if name = "log-filter".toList then some .logFilter
  else none

/-- The flag of a name: what it does instead of starting the program. -/
def flagged (name : Text) : Option Usage :=
  if name = "help".toList then some .help
  else if name = "version".toList then some .version
  else none

inductive Kind where
  /-- Two dashes, behind which nothing is an option. -/
  | stop
  | long (name : Text) (value : Option Text)
  | short (c : Char)
  | plain

def kind : Text → Kind
  | ['-', '-'] => .stop
  | '-' :: '-' :: t =>
    let name := t.takeWhile (· != '=')
    .long name (if name.length < t.length then some (t.drop (name.length + 1)) else none)
  | '-' :: c :: _ => .short c
  | _ => .plain

def long (p : Pending) (s : Options) (name : Text) (value : Option Text) :
    Except Usage (Pending × Options) :=
  match named name, flagged name, value with
  | some o, _, none => do return (some (o, none), ← settle p s)
  | some o, _, some v => do return (none, ← set o v (← settle p s))
  | none, some _, some v => throw (.error (.unexpectedValue v ('-' :: '-' :: name)))
  | none, some u, none => do
    let _ ← settle p s
    throw u
  | none, none, _ => throw (.error (.unexpectedArgument ('-' :: '-' :: name)))

def short (p : Pending) (s : Options) (c : Char) : Except Usage (Pending × Options) :=
  if c = 'h' ∨ c = 'V' then do
    let _ ← settle p s
    throw (if c = 'h' then .help else .version)
  else throw (.error (.unexpectedArgument ['-', c]))

def readFrom (p : Pending) (s : Options) : List Text → Except Usage Options
  | [] => settle p s
  | a :: rest =>
    match kind a with
    | .stop =>
      match rest with
      | [] => settle p s
      | b :: _ => .error (.error (.unexpectedArgument b))
    | .long name value => do
      let (p, s) ← long p s name value
      readFrom p s rest
    | .short c => do
      let (p, s) ← short p s c
      readFrom p s rest
    | .plain =>
      match p with
      | some (o, none) => readFrom (some (o, some a)) s rest
      | _ => .error (.error (.unexpectedArgument a))

def read (args : List Text) : Except Usage Options := readFrom none {} args

end Arguments

end StorageClient
