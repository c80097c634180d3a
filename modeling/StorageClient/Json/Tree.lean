import StorageClient.Json.Token

/-!
Syntax trees of JSON texts and the machine that builds them from tokens. The machine goes through
the tokens once and keeps the arrays and objects that are still open on a stack, so nesting has no
limit here.
-/

namespace StorageClient.Json

inductive Tree where
  | null
  | bool (b : Bool)
  | number (n : Numeral)
  | string (ps : List Piece)
  | array (items : List Tree)
  | object (members : List (List Piece × Tree))

namespace Tree

/-- An array or object that is still open, with what it holds so far, last first. -/
inductive Frame where
  | array (items : List Tree)
  | object (members : List (List Piece × Tree)) (key : List Piece)

inductive State where
  /-- A value. -/
  | value
  /-- The first item of an array, or its end. -/
  | firstItem
  /-- The first key of an object, or its end. -/
  | firstKey
  /-- The key after a comma. -/
  | nextKey (members : List (List Piece × Tree))
  /-- The colon behind a key. -/
  | colon (members : List (List Piece × Tree)) (key : List Piece)
  /-- A comma, or the end of what is open. -/
  | after (v : Tree)

def opening (st : List Frame) : Token → Option (State × List Frame)
  | .null => some (.after .null, st)
  | .bool b => some (.after (.bool b), st)
  | .number n => some (.after (.number n), st)
  | .string ps => some (.after (.string ps), st)
  | .openArray => some (.firstItem, st)
  | .openObject => some (.firstKey, st)
  | _ => none

def step : State → List Frame → Token → Option (State × List Frame)
  | .value, st, k => opening st k
  | .firstItem, st, .closeArray => some (.after (.array []), st)
  | .firstItem, st, k => opening (.array [] :: st) k
  | .firstKey, st, .closeObject => some (.after (.object []), st)
  | .firstKey, st, .string key => some (.colon [] key, st)
  | .nextKey ms, st, .string key => some (.colon ms key, st)
  | .colon ms key, st, .colon => some (.value, .object ms key :: st)
  | .after v, .array vs :: st, .comma => some (.value, .array (v :: vs) :: st)
  | .after v, .array vs :: st, .closeArray => some (.after (.array (v :: vs).reverse), st)
  | .after v, .object ms key :: st, .comma => some (.nextKey ((key, v) :: ms), st)
  | .after v, .object ms key :: st, .closeObject =>
    some (.after (.object ((key, v) :: ms).reverse), st)
  | _, _, _ => none

/-- All tokens. They have to end with one value and nothing open. -/
def build : State → List Frame → List Token → Option Tree
  | .after v, [], [] => some v
  | _, _, [] => none
  | s, st, k :: ks =>
    match step s st k with
    | some (s', st') => build s' st' ks
    | none => none

def ofText? (t : Text) : Option Tree := do build .value [] (← tokens t)

end Tree

end StorageClient.Json
