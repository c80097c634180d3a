import StorageClient.Json.Tree

/-!
The grammar of JSON texts, and that the scanner reads what it derives. A text spells tokens, with
white space anywhere between them; a tree has one list of tokens. Nothing here says what strings
and numbers stand for.
-/

namespace StorageClient.Json

inductive Piece.SpelledAs : Piece → Text → Prop
  | raw {c : Char} (space : 0x20 ≤ c.toNat) (quote : c ≠ '"') (backslash : c ≠ '\\') :
      SpelledAs (.char c) [c]
  | short {e c : Char} (escape : shortEscape e = some c) : SpelledAs (.char c) ['\\', e]
  | hex {a b c d : Char} {n : Nat} (digits : codeUnit a b c d = some n) :
      SpelledAs (.unit n) ['\\', 'u', a, b, c, d]

inductive StringAs : List Piece → Text → Prop
  | nil : StringAs [] []
  | cons {p : Piece} {ps : List Piece} {u t : Text} (piece : p.SpelledAs u) (rest : StringAs ps t) :
      StringAs (p :: ps) (u ++ t)

def Digits (ds : Text) : Prop := ds ≠ [] ∧ ∀ c ∈ ds, c.isDigit = true

inductive FractionAs : Option Text → Text → Prop
  | none : FractionAs none []
  | some {ds : Text} (digits : Digits ds) : FractionAs (some ds) ('.' :: ds)

inductive SignAs : Bool → Text → Prop
  | none : SignAs false []
  | plus : SignAs false ['+']
  | minus : SignAs true ['-']

inductive ExponentAs : Option (Bool × Text) → Text → Prop
  | none : ExponentAs none []
  | some {e : Char} {negative : Bool} {sign ds : Text} (letter : e = 'e' ∨ e = 'E')
      (signed : SignAs negative sign) (digits : Digits ds) :
      ExponentAs (some (negative, ds)) (e :: (sign ++ ds))

/-- The spellings of a number. No zero leads another digit. -/
inductive Numeral.SpelledAs : Numeral → Text → Prop
  | mk {negative : Bool} {whole fraction exponent : Text} {f : Option Text}
      {e : Option (Bool × Text)} (digits : Digits whole)
      (leading : whole.head? = some '0' → whole = ['0']) (hf : FractionAs f fraction)
      (he : ExponentAs e exponent) :
      SpelledAs ⟨negative, whole, f, e⟩
        ((if negative then ['-'] else []) ++ (whole ++ (fraction ++ exponent)))

inductive Token.SpelledAs : Token → Text → Prop
  | openObject : SpelledAs .openObject ['\x7b']
  | closeObject : SpelledAs .closeObject ['\x7d']
  | openArray : SpelledAs .openArray ['[']
  | closeArray : SpelledAs .closeArray [']']
  | colon : SpelledAs .colon [':']
  | comma : SpelledAs .comma [',']
  | null : SpelledAs .null ['n', 'u', 'l', 'l']
  | true : SpelledAs (.bool true) ['t', 'r', 'u', 'e']
  | false : SpelledAs (.bool false) ['f', 'a', 'l', 's', 'e']
  | number {n : Numeral} {t : Text} (h : n.SpelledAs t) : SpelledAs (.number n) t
  | string {ps : List Piece} {t : Text} (h : StringAs ps t) :
      SpelledAs (.string ps) ('"' :: (t ++ ['"']))

inductive TokensAs : List Token → Text → Prop
  | nil : TokensAs [] []
  | space {c : Char} {ks : List Token} {t : Text} (blank : isSpace c = true)
      (rest : TokensAs ks t) : TokensAs ks (c :: t)
  | token {k : Token} {ks : List Token} {u t : Text} (first : k.SpelledAs u)
      (rest : TokensAs ks t) : TokensAs (k :: ks) (u ++ t)

namespace Tree

mutual

def tokens : Tree → List Token
  | .null => [.null]
  | .bool b => [.bool b]
  | .number n => [.number n]
  | .string ps => [.string ps]
  | .array vs => .openArray :: (itemTokens vs ++ [.closeArray])
  | .object ms => .openObject :: (memberTokens ms ++ [.closeObject])

def itemTokens : List Tree → List Token
  | [] => []
  | [v] => v.tokens
  | v :: vs => v.tokens ++ .comma :: itemTokens vs

def memberTokens : List (List Piece × Tree) → List Token
  | [] => []
  | [(key, v)] => .string key :: .colon :: v.tokens
  | (key, v) :: ms => .string key :: .colon :: (v.tokens ++ .comma :: memberTokens ms)

end

def SpelledAs (v : Tree) (t : Text) : Prop := TokensAs v.tokens t

end Tree

/-! ### Strings -/

theorem stringAs_of_raw {t : Text} (h : ∀ c ∈ t, 0x20 ≤ c.toNat ∧ c ≠ '"' ∧ c ≠ '\\') :
    StringAs (t.map .char) t := by
  induction t with
  | nil => exact .nil
  | cons c t ih =>
    obtain ⟨h1, h2, h3⟩ := h c (by simp)
    exact .cons (.raw h1 h2 h3) (ih fun d hd => h d (by simp [hd]))

theorem scanString_of_stringAs {ps : List Piece} {u : Text} (h : StringAs ps u) (r : Text) :
    scanString (u ++ '"' :: r) = some (ps, r) := by
  induction h with
  | nil => rfl
  | cons piece rest ih =>
    cases piece with
    | raw space quote backslash =>
      have hs : ¬ _ < 0x20 := Nat.not_lt.mpr space
      simp [scanString, ih, backslash, hs]
    | @short e c escape =>
      have hu : e ≠ 'u' := by
        rintro rfl
        simp [shortEscape] at escape
      simp [scanString, ih, escape, hu]
    | hex digits => simp [scanString, ih, digits]

/-! ### Numbers -/

/-- A text that no number goes on in. -/
def EndsNumber (r : Text) : Prop :=
  ∀ c, r.head? = some c → c.isDigit = false ∧ c ≠ '.' ∧ c ≠ 'e' ∧ c ≠ 'E'

theorem scanDigits1_of_digits {ds r : Text} (h : Digits ds)
    (hr : ∀ c, r.head? = some c → c.isDigit = false) : scanDigits1 (ds ++ r) = some (ds, r) := by
  have hrest : r.takeWhile Char.isDigit = [] ∧ r.dropWhile Char.isDigit = r := by
    cases r with
    | nil => exact ⟨rfl, rfl⟩
    | cons c r => simp [hr c rfl]
  have hscan : scanDigits (ds ++ r) = (ds, r) := by
    rw [scanDigits, List.takeWhile_append_of_pos h.2, List.dropWhile_append_of_pos h.2, hrest.1,
      hrest.2, List.append_nil]
  rw [scanDigits1, hscan]
  split
  · next heq => exact absurd (congrArg Prod.fst heq) h.1
  · rfl

theorem head_of_digits {ds : Text} (h : Digits ds) (r : Text) :
    ∃ c t, ds ++ r = c :: t ∧ c.isDigit = true := by
  cases ds with
  | nil => exact absurd rfl h.1
  | cons c ds => exact ⟨c, ds ++ r, rfl, h.2 c (by simp)⟩

theorem scanWhole_of_digits {ds r : Text} (h : Digits ds) (hl : ds.head? = some '0' → ds = ['0'])
    (hr : ∀ c, r.head? = some c → c.isDigit = false) : scanWhole (ds ++ r) = some (ds, r) := by
  cases ds with
  | nil => exact absurd rfl h.1
  | cons c ds =>
    by_cases hc : c = '0'
    · subst c
      obtain rfl : ds = [] := by simpa using hl rfl
      rfl
    · rw [← scanDigits1_of_digits h hr]
      simp [scanWhole, hc]

theorem scanFraction_of_fractionAs {f : Option Text} {u r : Text} (h : FractionAs f u)
    (hr : ∀ c, r.head? = some c → c.isDigit = false ∧ c ≠ '.') :
    scanFraction (u ++ r) = some (f, r) := by
  cases h with
  | none =>
    cases r with
    | nil => rfl
    | cons c r => simp [scanFraction, (hr c rfl).2]
  | some digits =>
    simp [scanFraction, scanDigits1_of_digits digits fun c hc => (hr c hc).1]

theorem scanSign_of_signAs {negative : Bool} {sign ds r : Text} (h : SignAs negative sign)
    (hd : Digits ds) : scanSign (sign ++ ds ++ r) = (negative, ds ++ r) := by
  cases h with
  | plus => rfl
  | minus => rfl
  | none =>
    obtain ⟨c, t, ht, hc⟩ := head_of_digits hd r
    rw [List.nil_append, ht]
    have hm : c ≠ '-' := by rintro rfl; exact absurd hc (by decide)
    have hp : c ≠ '+' := by rintro rfl; exact absurd hc (by decide)
    simp [scanSign, hm, hp]

theorem scanExponent_of_exponentAs {e : Option (Bool × Text)} {u r : Text} (h : ExponentAs e u)
    (hr : EndsNumber r) : scanExponent (u ++ r) = some (e, r) := by
  cases h with
  | none =>
    cases r with
    | nil => rfl
    | cons c r =>
      obtain ⟨-, -, h1, h2⟩ := hr c rfl
      simp [scanExponent, h1, h2]
  | some letter signed digits =>
    have hs := scanSign_of_signAs (r := r) signed digits
    have hd := scanDigits1_of_digits digits fun c hc => (hr c hc).1
    rw [List.cons_append, scanExponent, if_pos letter, hs, hd]
    rfl

theorem head_of_parts {f : Option Text} {e : Option (Bool × Text)} {u v r : Text}
    (hf : FractionAs f u) (he : ExponentAs e v) (hr : EndsNumber r) :
    (∀ c, (v ++ r).head? = some c → c.isDigit = false ∧ c ≠ '.') ∧
      ∀ c, (u ++ (v ++ r)).head? = some c → c.isDigit = false := by
  have hv : ∀ c, (v ++ r).head? = some c → c.isDigit = false ∧ c ≠ '.' := by
    intro c hc
    cases he with
    | none => exact ⟨(hr c hc).1, (hr c hc).2.1⟩
    | some letter _ _ =>
      obtain rfl : _ = c := by simpa using hc
      rcases letter with rfl | rfl <;> decide
  refine ⟨hv, fun c hc => ?_⟩
  cases hf with
  | none => exact (hv c hc).1
  | some _ =>
    obtain rfl : '.' = c := by simpa using hc
    decide

theorem scanNumber_of_spelledAs {n : Numeral} {u : Text} (h : n.SpelledAs u) {r : Text}
    (hr : EndsNumber r) : scanNumber (u ++ r) = some (n, r) := by
  cases h with
  | @mk negative whole fraction exponent f e digits leading hf he =>
    -- No part goes on in the next one, so each scanner stops where its part does.
    obtain ⟨hv, hu⟩ := head_of_parts hf he hr
    have hminus : scanMinus ((if negative then ['-'] else []) ++
        (whole ++ (fraction ++ (exponent ++ r)))) =
        (negative, whole ++ (fraction ++ (exponent ++ r))) := by
      obtain ⟨c, t, ht, hc⟩ := head_of_digits digits (fraction ++ (exponent ++ r))
      have hm : c ≠ '-' := by rintro rfl; exact absurd hc (by decide)
      cases negative with
      | true => simp [scanMinus]
      | false => simp [ht, scanMinus, hm]
    simp only [List.append_assoc, scanNumber, hminus]
    simp [scanWhole_of_digits digits leading hu, scanFraction_of_fractionAs hf hv,
      scanExponent_of_exponentAs he hr]

end StorageClient.Json
