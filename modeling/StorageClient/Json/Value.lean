import StorageClient.Decimal.Shortest
import StorageClient.Fault
import StorageClient.Json.Tree

/-!
JSON values: what strings and numbers stand for, with a limit on nesting, and their one compact
spelling. Integers that fit a signed or unsigned word of 64 bits are kept whole; every other number
is a double.
-/

namespace StorageClient.Json

/-- A JSON value. The members of an object have different keys in ascending order. -/
inductive Value where
  | null
  | bool (b : Bool)
  | integer (n : Int)
  | real (x : Float)
  | string (t : Text)
  | array (items : List Value)
  | object (members : List (Text × Value))

def surrogates (high low : Nat) : Char := Char.ofNat (0x10000 + (high - 0xD800) * 0x400 + (low - 0xDC00))

/-- The text that the pieces of a string spell. Surrogates have to come in pairs. -/
def textOf : List Piece → Option Text
  | [] => some []
  | .char c :: ps => (textOf ps).map (c :: ·)
  | .unit n :: .unit m :: ps =>
    if 0xD800 ≤ n ∧ n ≤ 0xDBFF ∧ 0xDC00 ≤ m ∧ m ≤ 0xDFFF then
      (textOf ps).map (surrogates n m :: ·)
    else if 0xD800 ≤ n ∧ n ≤ 0xDFFF then none
    else (textOf (.unit m :: ps)).map (Char.ofNat n :: ·)
  | .unit n :: ps =>
    if 0xD800 ≤ n ∧ n ≤ 0xDFFF then none else (textOf ps).map (Char.ofNat n :: ·)

namespace Numeral

def pushDigit (n : Nat) (c : Char) : Nat := n * 10 + (c.toNat - 48)

def natOf (ds : Text) : Nat := ds.foldl pushDigit 0

/-- Appends digits to a significand as long as it fits a word; the rest is only counted. -/
def accumulate (sig : Nat) : Text → Nat × Nat
  | [] => (sig, 0)
  | c :: ds => if pushDigit sig c < Word.size64 then accumulate (pushDigit sig c) ds else (sig, ds.length + 1)

/-- `x · 10 ^ e` in steps that each round once, nothing if it is not finite. -/
def scale (x : Float) (e : Int) : Option Float :=
  if 308 < e then (if x == 0 then some x else none)
  else if 0 ≤ e then
    let y := x * Float.ofScientific 1 false e.toNat
    if y.isInf then none else some y
  else if -308 ≤ e then some (x / Float.ofScientific 1 false (-e).toNat)
  else if x == 0 then some x
  else scale (x / Float.ofScientific 1 false 308) (e + 308)
termination_by (-e).toNat
decreasing_by omega

/-- The double that a spelling stands for: a significand of at most 64 bits is scaled by a power of
ten, and digits past it only count for their place. -/
def real (n : Numeral) : Option Float := do
  let (sig, dropped) := accumulate 0 n.whole
  let fraction := n.fraction.getD []
  let (sig, unread) := accumulate sig fraction
  let point : Int := dropped - (fraction.length - unread : Nat)
  let e : Int := match n.exponent with
    | none => 0
    | some (negative, ds) => if negative then -(natOf ds : Int) else natOf ds
  let x ← scale sig.toUInt64.toFloat (point + e)
  return if n.negative then -x else x

def value (n : Numeral) : Option Value :=
  let m := natOf n.whole
  if n.fraction.isNone ∧ n.exponent.isNone ∧ !n.negative ∧ m < Word.size64 then some (.integer m)
  else if n.fraction.isNone ∧ n.exponent.isNone ∧ n.negative ∧ 0 < m ∧ m ≤ Word.half64 then
    some (.integer (-m))
  else n.real.map .real

end Numeral

namespace Value

/-- Sets a member in ascending order of keys; an earlier value of the key is lost. -/
def setMember (k : Text) (v : Value) : List (Text × Value) → List (Text × Value)
  | [] => [(k, v)]
  | (k', v') :: ms =>
    if k = k' then (k, v) :: ms
    else if k < k' then (k, v) :: (k', v') :: ms
    else (k', v') :: setMember k v ms

mutual

/-- The value of a tree of at most `depth` levels of arrays and objects. -/
def ofTree (depth : Nat) : Tree → Option Value
  | .null => some .null
  | .bool b => some (.bool b)
  | .number n => n.value
  | .string ps => (textOf ps).map .string
  | .array ts => if depth = 0 then none else (ofItems (depth - 1) ts).map .array
  | .object ms => if depth = 0 then none else (ofMembers (depth - 1) ms []).map .object

def ofItems (depth : Nat) : List Tree → Option (List Value)
  | [] => some []
  | t :: ts => do
    let v ← ofTree depth t
    return v :: (← ofItems depth ts)

def ofMembers (depth : Nat) :
    List (List Piece × Tree) → List (Text × Value) → Option (List (Text × Value))
  | [], done => some done
  | (k, t) :: ms, done => do
    let k ← textOf k
    let v ← ofTree depth t
    ofMembers depth ms (setMember k v done)

end

def hexChar (n : Nat) : Char := if n < 10 then Char.ofNat (48 + n) else Char.ofNat (87 + n)

def writeChar (c : Char) : Text :=
  match c with
  | '"' => ['\\', '"']
  | '\\' => ['\\', '\\']
  | '\x08' => ['\\', 'b']
  | '\x0c' => ['\\', 'f']
  | '\n' => ['\\', 'n']
  | '\r' => ['\\', 'r']
  | '\t' => ['\\', 't']
  | c =>
    if c.toNat < 0x20 then ['\\', 'u', '0', '0', hexChar (c.toNat / 16), hexChar (c.toNat % 16)]
    else [c]

def writeString (t : Text) : Text := '"' :: t.flatMap writeChar ++ ['"']

def writeInt : Int → Text
  | .ofNat n => Decimal.digitsOf n
  | .negSucc n => '-' :: Decimal.digitsOf (n + 1)

/-- Digits `d₁d₂…` that stand for `d₁.d₂… · 10 ^ e`: written with a point for exponents from -5 to
15, otherwise with an exponent that has a sign. -/
def writeDigits (ds : Text) (e : Int) : Text :=
  if -5 ≤ e ∧ e < 0 then "0.".toList ++ List.replicate ((-e).toNat - 1) '0' ++ ds
  else if 0 ≤ e ∧ e ≤ 15 then
    let n := e.toNat + 1
    if ds.length ≤ n then ds ++ List.replicate (n - ds.length) '0' ++ ".0".toList
    else ds.take n ++ '.' :: ds.drop n
  else
    let mantissa := if ds.length = 1 then ds else ds.take 1 ++ '.' :: ds.drop 1
    let sign := if e < 0 then '-' else '+'
    mantissa ++ 'e' :: sign :: Decimal.digitsOf e.natAbs

/-- A double in the fewest digits that read back. -/
def writeReal (x : Float) : Text :=
  let negative := Word.half64 ≤ x.toBits.toNat
  let body :=
    if x == 0 then "0.0".toList
    else match Decimal.shortest x with
      | none => "0.0".toList
      | some d =>
        let all := Decimal.digitsOf d.digits
        let ds := Text.dropEndWhile (· == '0') all
        writeDigits ds (d.exp10 + (all.length : Int) - 1)
  if negative then '-' :: body else body

mutual

/-- The compact spelling of a value: no white space, and keys in their order. -/
def write : Value → Text
  | .null => "null".toList
  | .bool true => "true".toList
  | .bool false => "false".toList
  | .integer n => writeInt n
  | .real x => writeReal x
  | .string t => writeString t
  | .array vs => '[' :: writeItems vs ++ [']']
  | .object ms => '\x7b' :: writeMembers ms ++ ['\x7d']

def writeItems : List Value → Text
  | [] => []
  | [v] => write v
  | v :: vs => write v ++ ',' :: writeItems vs

def writeMembers : List (Text × Value) → Text
  | [] => []
  | [(k, v)] => writeString k ++ ':' :: write v
  | (k, v) :: ms => writeString k ++ ':' :: write v ++ ',' :: writeMembers ms

end

end Value

end StorageClient.Json
