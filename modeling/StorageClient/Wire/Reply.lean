import StorageClient.Json.Value

/-!
Replies of the service. A structured reply is a JSON object, or an array of its five fields in
order; it says how the request went in one of two dialects. Every other line is a success that
carries the line itself.
-/

namespace StorageClient

inductive Reply where
  | success (data : Option Text)
  | failure (message : Text)
deriving DecidableEq, Repr

namespace Reply

def isSuccess : Reply → Bool
  | success _ => true
  | failure _ => false

/-- What a success carries, unless it is empty. -/
def data? : Reply → Option Text
  | success (some (c :: t)) => some (c :: t)
  | _ => none

def message? : Reply → Option Text
  | success _ => none
  | failure m => some m

structure Fields where
  status : Option Text := none
  success : Option Bool := none
  data : Json.Value := .null
  errorMessage : Option Text := none
  message : Option Text := none

open Json

def textField : Tree → Option (Option Text)
  | .null => some none
  | .string ps => (textOf ps).map some
  | _ => none

def boolField : Tree → Option (Option Bool)
  | .null => some none
  | .bool b => some (some b)
  | _ => none

/-- Levels of arrays and objects that the data may have. -/
def maxDataDepth : Nat := 126

def fieldsOf (status flag data errorMessage message : Tree) : Option Fields := do
  return ⟨← textField status, ← boolField flag, ← Value.ofTree maxDataDepth data,
    ← textField errorMessage, ← textField message⟩

/-- The member of a name, null if there is none. A repeated one is an error. -/
def member (name : String) (ms : List (Text × Tree)) : Option Tree :=
  match ms.filter fun m => m.1 == name.toList with
  | [] => some .null
  | [(_, t)] => some t
  | _ => none

def keyed (ms : List (List Piece × Tree)) : Option (List (Text × Tree)) :=
  ms.mapM fun (k, t) => (textOf k).map (·, t)

/-- The fields of a tree. Members of other names are not looked at. -/
def fields? : Tree → Option Fields
  | .object ms => do
    let ms ← keyed ms
    fieldsOf (← member "status" ms) (← member "success" ms) (← member "data" ms)
      (← member "error_message" ms) (← member "message" ms)
  | .array [status, flag, data, errorMessage, message] =>
    fieldsOf status flag data errorMessage message
  | _ => none

/-- Whether the fields report a success; the status, if there is one, decides. -/
def Fields.succeeded? (f : Fields) : Option Bool :=
  match f.status with
  | some s => some (s == "success".toList)
  | none => f.success

/-- Data as text: a string is its own text, and null is no data. -/
def dataText : Value → Option Text
  | .null => none
  | .string t => some t
  | v => some v.write

/-- The reply that the fields make, unless they say nothing about how the request went. -/
def ofFields (f : Fields) : Option Reply := do
  if ← f.succeeded? then return .success (dataText f.data)
  else return .failure ((f.errorMessage.or f.message).getD "Operation failed".toList)

def cut (raw : Text) : Text := Text.dropEndWhile (fun c => c == '\r' || c == '\n') raw

def structured? (t : Text) : Option Reply := do ofFields (← fields? (← Tree.ofText? t))

def read (raw : Text) : Reply := (structured? (cut raw)).getD (.success (some (cut raw)))

end Reply

end StorageClient
