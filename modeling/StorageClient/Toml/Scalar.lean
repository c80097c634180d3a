import StorageClient.Toml.Scan

/-!
Values of a TOML document that are neither strings nor made of other values: truth values, numbers
and times. Of a float only its size is kept, of a time nothing.
-/

namespace StorageClient.Toml

inductive Scalar where
  | bool (b : Bool)
  | integer (n : Int)
  /-- Nothing, in the shape of an integer. -/
  | blank
  /-- A float; the flag says whether it is too large for a double. -/
  | float (huge : Bool)
  | time
deriving DecidableEq, Repr

def valueOf (base : Nat) (ds : Text) : Nat :=
  ds.foldl (fun a c => a * base + (Json.hexDigit c).getD 0) 0

def ungroup (isDigit : Char → Bool) (t : Text) : Option Text :=
  let gs := Text.pieces '_' t
  if gs.all fun g => !g.isEmpty && g.all isDigit then some gs.flatten else none

/-- Whether every underscore stands between two digits. What else the groups hold is not looked at,
and the first may be a single character of any kind. -/
def isGrouped (isDigit : Char → Bool) (t : Text) : Bool :=
  let gs := Text.pieces '_' t
  (gs.drop 1).all (fun g => g.head?.any isDigit) &&
    gs.dropLast.all fun g => g.length == 1 || g.getLast?.any isDigit

/-- Drops a sign: whether it is a minus, and the rest. -/
def unsign : Text → Bool × Text
  | '-' :: t => (true, t)
  | '+' :: t => (false, t)
  | t => (false, t)

/-- The digits of an integer in base two, eight or sixteen, of which there may be none yet. -/
def basedInteger (base : Nat) (isDigit : Char → Bool) (t : Text) : Option Scalar :=
  if t = [] then some .blank else (ungroup isDigit t).map fun ds => .integer (valueOf base ds)

/-- A decimal integer. Between its first underscore and its end anything may stand. -/
def decimalInteger (t : Text) : Scalar :=
  let (negative, u) := unsign (t.filter (· != '_'))
  if u = [] ∨ !u.all Char.isDigit then .blank
  else .integer (if negative then -(valueOf 10 u : Int) else valueOf 10 u)

def hasLeadingZero (t : Text) : Bool :=
  t.head? == some '0' && 1 < (t.filter Char.isDigit).length

/-- Drops digits and underscores; at least one digit has to be there. -/
def afterDigits (t : Text) : Option Text :=
  let isPart (c : Char) : Bool := c.isDigit || c == '_'
  if (t.takeWhile isPart).any Char.isDigit then some (t.dropWhile isPart) else none

def afterFraction : Text → Option Text
  | '.' :: t => afterDigits t
  | t => some t

/-- What follows a decimal exponent, if there is one. It may have a sign and leading zeros. -/
def afterExponent : Text → Option Text
  | 'e' :: t | 'E' :: t => afterDigits (unsign t).2
  | t => some t

def isFloat (t : Text) : Bool :=
  let u := (unsign t).2
  isGrouped Char.isDigit t && !hasLeadingZero (u.takeWhile fun c => c.isDigit || c == '_') &&
    (do afterExponent (← afterFraction (← afterDigits u))) == some []

def exponentOf (t : Text) : Int :=
  let (negative, ds) := unsign ((t.dropWhile fun c => c != 'e' && c != 'E').drop 1)
  let n := valueOf 10 (ds.filter Char.isDigit)
  if negative then -(n : Int) else n

/-- Whether `m · 10 ^ e` is rounded to no double: it lies at or past the middle between the largest
one and the next power of two. A number of more than 310 digits does so at any rate, and one of
less than 300 does not. -/
def isHuge (m : Nat) (e : Int) : Bool :=
  let size := ((Nat.toDigits 10 m).length : Int) + e
  let bound := Nat.pow 2 1024 - Nat.pow 2 970
  m != 0 && 300 ≤ size && (310 < size || bound * Nat.pow 10 (-e).toNat ≤ m * Nat.pow 10 e.toNat)

/-- Whether a float is too large for a double. Infinity is not. -/
def isHugeFloat (t : Text) : Bool :=
  let mantissa := (t.takeWhile fun c => c != 'e' && c != 'E').filter fun c => c.isDigit || c == '.'
  let fraction := (mantissa.dropWhile (· != '.')).drop 1
  isHuge (valueOf 10 (mantissa.filter Char.isDigit)) (exponentOf t - fraction.length)

/-- Whether an integer fits a word of 128 bits, with or without a sign. -/
def isWord (n : Int) : Bool :=
  -170141183460469231731687303715884105728 ≤ n && n < 340282366920938463463374607431768211456

def Scalar.fits : Scalar → Bool
  | .integer n => isWord n
  | .blank => false
  | .float huge => !huge
  | _ => true

def twoDigits : Text → Option (Nat × Text)
  | a :: b :: t => if a.isDigit ∧ b.isDigit then some (valueOf 10 [a, b], t) else none
  | _ => none

def daysIn (year month : Nat) : Nat :=
  if month = 2 then (if year % 4 = 0 ∧ (year % 100 ≠ 0 ∨ year % 400 = 0) then 29 else 28)
  else if month = 4 ∨ month = 6 ∨ month = 9 ∨ month = 11 then 30
  else 31

def afterDate (t : Text) : Option Text := do
  let (century, t) ← twoDigits t
  let (year, t) ← twoDigits t
  let '-' :: t := t | none
  let (month, t) ← twoDigits t
  let '-' :: t := t | none
  let (day, t) ← twoDigits t
  if 1 ≤ month ∧ month ≤ 12 ∧ 1 ≤ day ∧ day ≤ daysIn (century * 100 + year) month then some t
  else none

def afterInstant : Text → Option Text
  | '.' :: t => if (t.takeWhile Char.isDigit).isEmpty then none else some (t.dropWhile Char.isDigit)
  | t => some t

/-- What follows a time of day; the seconds may be left out. -/
def afterTime (t : Text) : Option Text := do
  let (hour, t) ← twoDigits t
  let ':' :: t := t | none
  let (minute, t) ← twoDigits t
  if 23 < hour ∨ 59 < minute then none
  match t with
  | ':' :: t => do
    let (second, t) ← twoDigits t
    if 60 < second then none
    afterInstant t
  | t => some t

def isOffset : Text → Bool
  | [] | ['Z'] | ['z'] => true
  | c :: t =>
    (c == '+' || c == '-') &&
      match twoDigits t with
      | some (hour, ':' :: u) =>
        match twoDigits u with
        | some (minute, []) => hour ≤ 23 && minute ≤ 59
        | _ => false
      | _ => false

def isTime (t : Text) : Bool :=
  match afterDate t with
  | some [] => true
  | some (c :: u) =>
    (c == 'T' || c == 't' || c == ' ') &&
      match afterTime u with
      | some r => isOffset r
      | none => false
  | none => afterTime t == some []

/-- A number or a time. The first character behind the leading digits tells times from numbers, and
a point or an exponent makes a number a float. -/
def decimal? (t : Text) : Option Scalar :=
  let u := (unsign t).2
  if u = "inf".toList ∨ u = "nan".toList then some (.float false)
  else match u.dropWhile Char.isDigit with
    | [] => if u = [] ∨ hasLeadingZero u then none else some (decimalInteger t)
    | c :: r =>
      if c = '-' ∨ c = ':' then (if isTime t then some .time else none)
      else if (c :: r).any fun c => c == '.' || c == 'e' || c == 'E' then
        if isFloat t then some (.float (isHugeFloat t)) else none
      else if c = '_' ∧ u.head? ≠ some '0' ∧ isGrouped (fun c => (Json.hexDigit c).isSome) t then
        some (decimalInteger t)
      else none

/-- What a word stands for. Only decimal numbers have a sign. -/
def scalar? : Text → Option Scalar
  | '0' :: 'x' :: t => basedInteger 16 (fun c => (Json.hexDigit c).isSome) t
  | '0' :: 'o' :: t => basedInteger 8 (fun c => '0' ≤ c && c ≤ '7') t
  | '0' :: 'b' :: t => basedInteger 2 (fun c => c == '0' || c == '1') t
  | t =>
    if t = "true".toList then some (.bool true)
    else if t = "false".toList then some (.bool false)
    else decimal? t

def isWordChar (c : Char) : Bool := !" \t\r\n#=,[]\x7b\x7d".toList.contains c

/-- The word at the front of a text. A date takes the time behind a single space along. -/
def word (t : Text) : Text × Text :=
  let w := t.takeWhile isWordChar
  let r := t.dropWhile isWordChar
  match r with
  | ' ' :: u =>
    if afterDate w = some [] ∧ (twoDigits u).isSome then
      (w ++ ' ' :: u.takeWhile isWordChar, u.dropWhile isWordChar)
    else (w, r)
  | r => (w, r)

end StorageClient.Toml
