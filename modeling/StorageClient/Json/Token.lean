import StorageClient.Text.Basic

/-!
The tokens of a JSON text. A string token keeps the spelling of its characters and a number token
its digits; what they stand for is decided where they are used.
-/

namespace StorageClient.Json

/-- A character of a string as it was spelled: itself or a short escape of it, or the code unit of
a hexadecimal escape. -/
inductive Piece where
  | char (c : Char)
  | unit (n : Nat)
deriving DecidableEq, Repr

structure Numeral where
  negative : Bool := false
  whole : Text
  fraction : Option Text := none
  exponent : Option (Bool × Text) := none
deriving DecidableEq, Repr

inductive Token where
  | openObject
  | closeObject
  | openArray
  | closeArray
  | colon
  | comma
  | null
  | bool (b : Bool)
  | number (n : Numeral)
  | string (ps : List Piece)
deriving DecidableEq, Repr

def isSpace (c : Char) : Bool := c == ' ' || c == '\t' || c == '\n' || c == '\r'

def hexDigit (c : Char) : Option Nat :=
  let n := c.toNat
  if 48 ≤ n ∧ n ≤ 57 then some (n - 48)
  else if 97 ≤ n ∧ n ≤ 102 then some (n - 87)
  else if 65 ≤ n ∧ n ≤ 70 then some (n - 55)
  else none

def codeUnit (a b c d : Char) : Option Nat := do
  return (((← hexDigit a) * 16 + (← hexDigit b)) * 16 + (← hexDigit c)) * 16 + (← hexDigit d)

def shortEscape : Char → Option Char
  | '"' => some '"'
  | '\\' => some '\\'
  | '/' => some '/'
  | 'b' => some '\x08'
  | 'f' => some '\x0c'
  | 'n' => some '\n'
  | 'r' => some '\r'
  | 't' => some '\t'
  | _ => none

/-- The rest of a string behind its opening quote, and what follows the closing one. Control
characters below U+0020 must be escaped. -/
def scanString : Text → Option (List Piece × Text)
  | [] => none
  | '"' :: t => some ([], t)
  | '\\' :: 'u' :: a :: b :: c :: d :: t => do
    let n ← codeUnit a b c d
    let (ps, r) ← scanString t
    return (.unit n :: ps, r)
  | '\\' :: e :: t => do
    let c ← shortEscape e
    let (ps, r) ← scanString t
    return (.char c :: ps, r)
  | c :: t =>
    if c.toNat < 0x20 ∨ c = '\\' then none
    else do
      let (ps, r) ← scanString t
      return (.char c :: ps, r)

def scanDigits (t : Text) : Text × Text := (t.takeWhile Char.isDigit, t.dropWhile Char.isDigit)

def scanDigits1 (t : Text) : Option (Text × Text) :=
  match scanDigits t with
  | ([], _) => none
  | r => some r

/-- The digits before the point: no zero leads another digit. -/
def scanWhole : Text → Option (Text × Text)
  | '0' :: t => some (['0'], t)
  | t => scanDigits1 t

def scanFraction : Text → Option (Option Text × Text)
  | '.' :: t => (scanDigits1 t).map fun (ds, r) => (some ds, r)
  | t => some (none, t)

/-- A sign, if there is one: whether it is a minus. -/
def scanSign : Text → Bool × Text
  | '-' :: t => (true, t)
  | '+' :: t => (false, t)
  | t => (false, t)

def scanExponent : Text → Option (Option (Bool × Text) × Text)
  | c :: t =>
    if c = 'e' ∨ c = 'E' then
      (scanDigits1 (scanSign t).2).map fun (ds, r) => (some ((scanSign t).1, ds), r)
    else some (none, c :: t)
  | [] => some (none, [])

def scanMinus : Text → Bool × Text
  | '-' :: t => (true, t)
  | t => (false, t)

def scanNumber (t : Text) : Option (Numeral × Text) := do
  let (whole, u) ← scanWhole (scanMinus t).2
  let (fraction, u) ← scanFraction u
  let (exponent, u) ← scanExponent u
  return (⟨(scanMinus t).1, whole, fraction, exponent⟩, u)

def scanToken : Text → Option (Token × Text)
  | '\x7b' :: t => some (.openObject, t)
  | '\x7d' :: t => some (.closeObject, t)
  | '[' :: t => some (.openArray, t)
  | ']' :: t => some (.closeArray, t)
  | ':' :: t => some (.colon, t)
  | ',' :: t => some (.comma, t)
  | 'n' :: 'u' :: 'l' :: 'l' :: t => some (.null, t)
  | 't' :: 'r' :: 'u' :: 'e' :: t => some (.bool true, t)
  | 'f' :: 'a' :: 'l' :: 's' :: 'e' :: t => some (.bool false, t)
  | '"' :: t => (scanString t).map fun (ps, r) => (.string ps, r)
  | t => (scanNumber t).map fun (n, r) => (.number n, r)

theorem length_of_scanString {t r : Text} {ps : List Piece} (h : scanString t = some (ps, r)) :
    r.length < t.length := by
  fun_induction scanString t generalizing ps r <;>
    simp_all [Option.bind_eq_some_iff, bind] <;> grind

theorem length_of_scanDigits1 {t ds r : Text} (h : scanDigits1 t = some (ds, r)) :
    r.length < t.length := by
  have hl := congrArg List.length (List.takeWhile_append_dropWhile (p := Char.isDigit) (l := t))
  rw [List.length_append] at hl
  unfold scanDigits1 scanDigits at h
  split at h
  · simp at h
  · rename_i hne
    simp only [Option.some.injEq, Prod.mk.injEq] at h
    obtain ⟨rfl, rfl⟩ := h
    have : (t.takeWhile Char.isDigit).length ≠ 0 := fun h0 =>
      hne _ (by rw [List.length_eq_zero_iff.1 h0])
    omega

theorem length_of_scanWhole {t ds r : Text} (h : scanWhole t = some (ds, r)) :
    r.length < t.length := by
  unfold scanWhole at h
  split at h
  · simp_all
  · exact length_of_scanDigits1 h

theorem length_of_scanFraction {t r : Text} {f : Option Text}
    (h : scanFraction t = some (f, r)) : r.length ≤ t.length := by
  unfold scanFraction at h
  split at h
  · obtain ⟨p, hp, h⟩ := Option.map_eq_some_iff.1 h
    obtain ⟨rfl, rfl⟩ := Prod.mk.injEq .. ▸ h
    have := length_of_scanDigits1 hp
    simp only [List.length_cons]
    omega
  · simp_all

theorem length_scanSign (t : Text) : (scanSign t).2.length ≤ t.length := by
  unfold scanSign
  split <;> simp

theorem length_scanMinus (t : Text) : (scanMinus t).2.length ≤ t.length := by
  unfold scanMinus
  split <;> simp

theorem length_of_scanExponent {t r : Text} {e : Option (Bool × Text)}
    (h : scanExponent t = some (e, r)) : r.length ≤ t.length := by
  unfold scanExponent at h
  split at h
  · rename_i c u
    split at h
    · obtain ⟨p, hp, h⟩ := Option.map_eq_some_iff.1 h
      obtain ⟨rfl, rfl⟩ := Prod.mk.injEq .. ▸ h
      have := length_of_scanDigits1 hp
      have := length_scanSign u
      simp only [List.length_cons]
      omega
    · simp_all
  · simp_all

theorem length_of_scanNumber {t r : Text} {n : Numeral} (h : scanNumber t = some (n, r)) :
    r.length < t.length := by
  simp only [scanNumber, Option.bind_eq_bind, Option.bind_eq_some_iff, Option.pure_def,
    Option.some.injEq, Prod.mk.injEq] at h
  obtain ⟨⟨w, a⟩, hw, ⟨f, b⟩, hf, ⟨e, c⟩, he, -, rfl⟩ := h
  have h1 := length_of_scanWhole hw
  have h2 := length_of_scanFraction hf
  have h3 := length_of_scanExponent he
  have h0 := length_scanMinus t
  simp only at h2 h3 ⊢
  omega

theorem length_of_scanToken {t r : Text} {k : Token} (h : scanToken t = some (k, r)) :
    r.length < t.length := by
  unfold scanToken at h
  split at h
  case h_10 =>
    obtain ⟨p, hp, h⟩ := Option.map_eq_some_iff.1 h
    obtain ⟨-, rfl⟩ := Prod.mk.injEq .. ▸ h
    have := length_of_scanString hp
    simp only [List.length_cons]
    omega
  case h_11 =>
    obtain ⟨p, hp, h⟩ := Option.map_eq_some_iff.1 h
    obtain ⟨-, rfl⟩ := Prod.mk.injEq .. ▸ h
    exact length_of_scanNumber hp
  all_goals
    simp only [Option.some.injEq, Prod.mk.injEq] at h
    obtain ⟨-, rfl⟩ := h
    simp only [List.length_cons]
    omega

/-- All tokens of a text, nothing if it has a part that is none. -/
def tokens : Text → Option (List Token)
  | [] => some []
  | c :: t =>
    if isSpace c then tokens t
    else
      match _h : scanToken (c :: t) with
      | none => none
      | some (k, r) => (tokens r).map (k :: ·)
termination_by t => t.length
decreasing_by
  · simp
  · exact length_of_scanToken ‹_›

end StorageClient.Json
