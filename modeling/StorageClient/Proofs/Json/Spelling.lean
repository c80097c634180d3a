import StorageClient.Json.Value
import StorageClient.Proofs.Json.Grammar

/-!
The spellings of a text inside a string. Each character stands for itself, raw or by a short escape,
or is given by its code units, of which the characters above U+FFFF have two. Every spelling is read
back as its text.
-/

namespace StorageClient.Json

/-- The code units of a character; a pair of surrogates above U+FFFF. -/
def codeUnits (c : Char) : List Nat :=
  if c.toNat < 0x10000 then [c.toNat]
  else [0xD800 + (c.toNat - 0x10000) / 0x400, 0xDC00 + (c.toNat - 0x10000) % 0x400]

inductive Spells : List Piece → Text → Prop
  | nil : Spells [] []
  | char (c : Char) {ps : List Piece} {s : Text} (rest : Spells ps s) :
      Spells (.char c :: ps) (c :: s)
  | units (c : Char) {ps : List Piece} {s : Text} (rest : Spells ps s) :
      Spells ((codeUnits c).map .unit ++ ps) (c :: s)

/-- The spellings of a text, without the quotes around them. -/
def TextAs (s u : Text) : Prop := ∃ ps, Spells ps s ∧ StringAs ps u

theorem toNat_range (c : Char) : (c.toNat < 0xD800 ∨ 0xDFFF < c.toNat) ∧ c.toNat < 0x110000 := by
  have hvalid : c.toNat.isValidChar := c.valid
  rcases hvalid with h | ⟨h, h'⟩
  · exact ⟨.inl h, by omega⟩
  · exact ⟨.inr h, h'⟩

theorem textOf_unit {n : Nat} (h : n < 0xD800 ∨ 0xDFFF < n) (ps : List Piece) :
    textOf (.unit n :: ps) = (textOf ps).map (Char.ofNat n :: ·) := by
  have hhigh : ∀ m, ¬ (0xD800 ≤ n ∧ n ≤ 0xDBFF ∧ 0xDC00 ≤ m ∧ m ≤ 0xDFFF) := by
    intro m hm
    omega
  have hlone : ¬ (0xD800 ≤ n ∧ n ≤ 0xDFFF) := by omega
  cases ps with
  | nil => simp [textOf, hlone]
  | cons p ps =>
    cases p with
    | char c => simp [textOf, hlone]
    | unit m => simp only [textOf, if_neg (hhigh m), if_neg hlone]

theorem textOf_units (c : Char) (ps : List Piece) :
    textOf ((codeUnits c).map .unit ++ ps) = (textOf ps).map (c :: ·) := by
  obtain ⟨hrange, hlast⟩ := toNat_range c
  unfold codeUnits
  split
  · rw [List.map_singleton, List.singleton_append, textOf_unit hrange, Char.ofNat_toNat]
  · next hlarge =>
    generalize hn : c.toNat - 0x10000 = n
    have hlt : n < 0x100000 := by omega
    have hpair : 0xD800 ≤ 0xD800 + n / 0x400 ∧ 0xD800 + n / 0x400 ≤ 0xDBFF ∧
        0xDC00 ≤ 0xDC00 + n % 0x400 ∧ 0xDC00 + n % 0x400 ≤ 0xDFFF := by omega
    have hvalue : 0x10000 + (0xD800 + n / 0x400 - 0xD800) * 0x400 + (0xDC00 + n % 0x400 - 0xDC00) =
        c.toNat := by omega
    have hchar : surrogates (0xD800 + n / 0x400) (0xDC00 + n % 0x400) = c := by
      rw [surrogates, hvalue, Char.ofNat_toNat]
    simp only [List.map_cons, List.map_nil, List.cons_append, List.nil_append, textOf,
      if_pos hpair, hchar]

theorem textOf_of_spells {ps : List Piece} {s : Text} (h : Spells ps s) : textOf ps = some s := by
  induction h with
  | nil => rfl
  | char c rest ih => rw [textOf, ih, Option.map_some]
  | units c rest ih => rw [textOf_units, ih, Option.map_some]

/-! ### Written texts -/

theorem exists_piece_writeChar (c : Char) : ∃ p : Piece, p.SpelledAs (Value.writeChar c) ∧
    ∀ {ps : List Piece} {s : Text}, Spells ps s → Spells (p :: ps) (c :: s) := by
  have hhex : ∀ n < 16, hexDigit (Value.hexChar n) = some n := by decide
  unfold Value.writeChar
  split
  case h_8 hquote hslash _ _ _ _ _ =>
    split
    · next hcontrol =>
      have hhigh := hhex (c.toNat / 16) (by omega)
      have hlow := hhex (c.toNat % 16) (by omega)
      have hvalue : c.toNat / 16 * 16 + c.toNat % 16 = c.toNat := by omega
      have hunits : codeUnits c = [c.toNat] := if_pos (by omega)
      refine ⟨.unit c.toNat, .hex ?_, fun {ps s} h => ?_⟩
      · simp [codeUnit, hhigh, hlow, hvalue, show hexDigit '0' = some 0 from rfl]
      · have hspells := Spells.units c h
        rwa [hunits] at hspells
    · next hspace => exact ⟨.char c, .raw (Nat.not_lt.1 hspace) hquote hslash, .char c⟩
  all_goals exact ⟨.char _, .short rfl, .char _⟩

theorem textAs_writeChars (s : Text) : TextAs s (s.flatMap Value.writeChar) := by
  induction s with
  | nil => exact ⟨[], .nil, .nil⟩
  | cons c s ih =>
    obtain ⟨p, piece, hp⟩ := exists_piece_writeChar c
    obtain ⟨ps, spells, spelled⟩ := ih
    exact ⟨p :: ps, hp spells, .cons piece spelled⟩

end StorageClient.Json
