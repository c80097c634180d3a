import StorageClient.Text.Basic

/-!
The shortest decimal that reads back as a given binary number. A positive number `m · 2 ^ q` is
what every real nearer to it than to its neighbours rounds to; of the decimals with the fewest
digits among those reals, the one nearest to it is taken.
-/

namespace StorageClient

/-- A decimal `digits · 10 ^ exp10`. -/
structure Decimal where
  digits : Nat
  exp10 : Int
deriving DecidableEq, Repr

namespace Decimal

/-- A number and the ends of its rounding interval over one denominator. -/
structure Span where
  low : Nat
  value : Nat
  high : Nat
  denominator : Nat
  closed : Bool
deriving Repr

/-- The rounding interval of `m · 2 ^ q`. The neighbour below a power of two is nearer, except for
the smallest exponent. -/
def span (m : Nat) (q : Int) (halfGap : Bool) : Span :=
  let up := Nat.pow 2 q.toNat
  ⟨(4 * m - if halfGap then 1 else 2) * up, 4 * m * up, (4 * m + 2) * up, 4 * Nat.pow 2 (-q).toNat,
    m % 2 == 0⟩

def Span.scale (s : Span) (e : Int) : Span :=
  let up := Nat.pow 10 (-e).toNat
  ⟨s.low * up, s.value * up, s.high * up, s.denominator * Nat.pow 10 e.toNat, s.closed⟩

def Span.has (s : Span) (c : Nat) : Bool :=
  let x := c * s.denominator
  if s.closed then s.low ≤ x && x ≤ s.high else s.low < x && x < s.high

/-- The whole number in the span that is nearest to its value, an even one on a tie. -/
def Span.nearest (s : Span) : Option Nat :=
  let a := s.value / s.denominator
  match s.has a, s.has (a + 1) with
  | true, true =>
    let down := s.value - a * s.denominator
    let up := (a + 1) * s.denominator - s.value
    some (if down < up ∨ (down = up ∧ a % 2 = 0) then a else a + 1)
  | true, false => some a
  | false, true => some (a + 1)
  | false, false => none

/-- How often ten fits into a positive fraction, at most `fuel` times. -/
def scaleUp (num den : Nat) : Nat → Nat
  | 0 => 0
  | fuel + 1 => if num < den * 10 then 0 else scaleUp num (den * 10) fuel + 1

/-- How many tens a positive fraction below one lacks, at most `fuel`. -/
def scaleDown (num den : Nat) : Nat → Nat
  | 0 => 0
  | fuel + 1 => if den ≤ num then 0 else scaleDown (num * 10) den fuel + 1

def Span.magnitude (s : Span) : Int :=
  if s.value < s.denominator then -(scaleDown s.value s.denominator 400 : Nat)
  else (scaleUp s.value s.denominator 400 : Nat)

/-- The first grid that hits the span, starting with the coarsest: `fuel` grids are tried. -/
def search (s : Span) (e : Int) : Nat → Option Decimal
  | 0 => none
  | fuel + 1 =>
    match (s.scale e).nearest with
    | some c => some ⟨c, e⟩
    | none => search s (e - 1) fuel

def leastNormal : Nat := 4503599627370496

/-- The significand and binary exponent of a finite double without its sign. -/
def parts (x : Float) : Nat × Int :=
  let bits : Nat := x.toBits.toNat
  let e : Nat := bits / leastNormal % 2048
  let f : Nat := bits % leastNormal
  if e = 0 then (f, -1074) else (leastNormal + f, Int.ofNat e - 1075)

/-- The shortest decimal of a finite double other than zero, without its sign. -/
def shortest (x : Float) : Option Decimal :=
  let (m, q) := parts x
  let s := span m q (m == leastNormal && q != -1074)
  search s s.magnitude 18

def digitsOf (n : Nat) : Text := (Nat.toDigits 10 n)

end Decimal

end StorageClient
