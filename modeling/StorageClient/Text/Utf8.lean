import StorageClient.Text.Basic

/-!
UTF-8 decoding by an automaton over bytes. Every maximal part that no character starts with is one
error, which a strict reader refuses and a lenient one shows as U+FFFD.
-/

namespace StorageClient.Utf8

/-- Between characters, or inside one with the bits so far, the number of bytes still to come and
the range the next of them must lie in. -/
inductive State where
  | idle
  | inside (bits left low high : Nat)
deriving DecidableEq, Repr

def first (b : Nat) : List (Option Char) × State :=
  if b < 0x80 then ([some (Char.ofNat b)], .idle)
  else if 0xC2 ≤ b ∧ b ≤ 0xDF then ([], .inside (b - 0xC0) 1 0x80 0xBF)
  else if b = 0xE0 then ([], .inside 0 2 0xA0 0xBF)
  else if b = 0xED then ([], .inside 0xD 2 0x80 0x9F)
  else if 0xE1 ≤ b ∧ b ≤ 0xEF then ([], .inside (b - 0xE0) 2 0x80 0xBF)
  else if b = 0xF0 then ([], .inside 0 3 0x90 0xBF)
  else if b = 0xF4 then ([], .inside 4 3 0x80 0x8F)
  else if 0xF1 ≤ b ∧ b ≤ 0xF3 then ([], .inside (b - 0xF0) 3 0x80 0xBF)
  else ([none], .idle)

/-- What a byte yields. One that does not continue a character ends it in an error and is looked at
anew. -/
def next : State → Nat → List (Option Char) × State
  | .idle, b => first b
  | .inside bits left low high, b =>
    if low ≤ b ∧ b ≤ high then
      let bits := bits * 64 + b % 64
      if left ≤ 1 then ([some (Char.ofNat bits)], .idle)
      else ([], .inside bits (left - 1) 0x80 0xBF)
    else
      let (out, s) := first b
      (none :: out, s)

def scan : State → List UInt8 → List (Option Char)
  | .idle, [] => []
  | .inside .., [] => [none]
  | s, b :: bs => (next s b.toNat).1 ++ scan (next s b.toNat).2 bs

/-- Decodes with U+FFFD for every error. -/
def decodeLossy (bs : List UInt8) : Text := (scan .idle bs).map (·.getD '\uFFFD')

def decode? (bs : List UInt8) : Option Text := (scan .idle bs).mapM id

def size (t : Text) : Nat := t.foldl (fun n c => n + c.utf8Size) 0

end StorageClient.Utf8
