/-!
Faults are what no answer exists for: a row that is not there, a number past the size of a machine
word, a log that cannot be written. Every operation that can meet one says so in its type.
-/

namespace StorageClient

inductive Fault where
  /-- A row that the buffer does not have. -/
  | missingRow
  /-- A column past the end of its line. -/
  | missingColumn
  /-- The first line has no line above it to join. -/
  | noLineAbove
  /-- Column zero has no character before it. -/
  | noCharBefore
  /-- A cursor that does not point into its buffer. -/
  | cursorOutside
  /-- A range of lines that does not lie in the buffer. -/
  | rangeOutside
  /-- A number that does not fit its machine word. -/
  | overflow
  /-- A log file that cannot be opened. -/
  | noLogFile
deriving DecidableEq, Repr

namespace Word

def max16 : Nat := 65535

def size64 : Nat := 18446744073709551616

/-- The number of values of a 64 bit word with a sign that are not negative. -/
def half64 : Nat := 9223372036854775808

/-- Accepts a sum met beside a count `n` that fits a word: it overflows only past both. -/
def check (x n : Nat) : Except Fault Unit :=
  if x ≤ n ∨ x < size64 then .ok () else .error .overflow

def add16 (a b : Nat) : Except Fault Nat :=
  if a + b ≤ max16 then .ok (a + b) else .error .overflow

def sub16 (a b : Nat) : Except Fault Nat :=
  if b ≤ a then .ok (a - b) else .error .overflow

/-- Adds screen coordinates and stops at the largest. -/
def satAdd16 (a b : Nat) : Nat := min (a + b) max16

def trunc16 (a : Nat) : Nat := a % (max16 + 1)

theorem check_of_le {x n : Nat} (h : x ≤ n) : check x n = .ok () := by simp [check, h]

theorem check_of_lt {x n : Nat} (h : x < size64) : check x n = .ok () := by simp [check, h]

theorem add16_of_le {a b : Nat} (h : a + b ≤ max16) : add16 a b = .ok (a + b) := by
  simp [add16, h]

theorem sub16_of_le {a b : Nat} (h : b ≤ a) : sub16 a b = .ok (a - b) := by simp [sub16, h]

theorem max_one_pos (n : Nat) : 0 < max n 1 := Nat.lt_of_lt_of_le Nat.one_pos (Nat.le_max_right ..)

end Word

end StorageClient
