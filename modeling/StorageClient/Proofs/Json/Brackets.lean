import StorageClient.Proofs.Json.Reading
import StorageClient.Proofs.Json.Spelling
import StorageClient.Proofs.Text.Trimming

/-!
How many arrays a text holds, without reading it: its opening brackets outside of strings. A tree
has as many as any of its texts, and its value has no more, whatever the numbers in it stand for. So
nothing that is written of an item is the text of the array around it.
-/

namespace StorageClient.Json

/-! ### Counting -/

inductive Place where
  | outside
  | inside
  /-- In a string, behind a backslash. -/
  | escaped
deriving DecidableEq

namespace Place

def next : Place → Char → Place
  | outside, c => if c = '"' then inside else outside
  | inside, c => if c = '"' then outside else if c = '\\' then escaped else inside
  | escaped, _ => inside

def behind (p : Place) (t : Text) : Place := t.foldl next p

/-- The opening brackets of a text that stand outside of strings. -/
def brackets (p : Place) : Text → Nat
  | [] => 0
  | c :: t => (if p = outside ∧ c = '[' then 1 else 0) + brackets (p.next c) t

/-- The characters of a text that stand outside of strings. An opening quote does. -/
def outer (p : Place) : Text → Text
  | [] => []
  | c :: t => (if p = outside then [c] else []) ++ outer (p.next c) t

theorem behind_append (p : Place) (t u : Text) : p.behind (t ++ u) = (p.behind t).behind u :=
  List.foldl_append ..

theorem brackets_append (p : Place) (t u : Text) :
    p.brackets (t ++ u) = p.brackets t + (p.behind t).brackets u := by
  induction t generalizing p with
  | nil => exact (Nat.zero_add _).symm
  | cons c t ih => rw [List.cons_append, brackets, brackets, ih, Nat.add_assoc]; rfl

theorem outer_append (p : Place) (t u : Text) :
    p.outer (t ++ u) = p.outer t ++ (p.behind t).outer u := by
  induction t generalizing p with
  | nil => rfl
  | cons c t ih => rw [List.cons_append, outer, outer, ih, List.append_assoc]; rfl

theorem mem_of_mem_outer {p : Place} {t : Text} {c : Char} (h : c ∈ p.outer t) : c ∈ t := by
  induction t generalizing p with
  | nil => exact h
  | cons d t ih =>
    rcases List.mem_append.1 h with h | h
    · have hc : c = d := by
        split at h
        · exact List.mem_singleton.1 h
        · cases h
      exact hc ▸ List.mem_cons_self
    · exact List.mem_cons_of_mem d (ih h)

theorem brackets_eq_count (p : Place) (t : Text) : p.brackets t = (p.outer t).count '[' := by
  induction t generalizing p with
  | nil => rfl
  | cons c t ih =>
    rw [brackets, outer, ih, List.count_append]
    by_cases hp : p = outside
    · simp [hp, List.count_singleton]
    · simp [hp]

end Place

open Place

variable {t u : Text} {n m : Nat}

/-- The text leaves no string open and has `n` opening brackets. -/
def Opens (n : Nat) (t : Text) : Prop := outside.behind t = outside ∧ outside.brackets t = n

def Quotable (t : Text) : Prop := inside.behind t = inside ∧ inside.brackets t = 0

/-- All of the text stands in the string that is open in front of it. -/
def Hidden (t : Text) : Prop := inside.behind t = inside ∧ inside.outer t = []

theorem Opens.append (h : Opens n t) (k : Opens m u) : Opens (n + m) (t ++ u) := by
  refine ⟨?_, ?_⟩
  · rw [behind_append, h.1, k.1]
  · rw [brackets_append, h.1, h.2, k.2]

theorem Hidden.append (h : Hidden t) (k : Hidden u) : Hidden (t ++ u) := by
  refine ⟨?_, ?_⟩
  · rw [behind_append, h.1, k.1]
  · rw [outer_append, h.1, h.2, k.2, List.append_nil]

theorem hidden_nil : Hidden [] := ⟨rfl, rfl⟩

theorem Hidden.quotable (h : Hidden t) : Quotable t := by
  refine ⟨h.1, ?_⟩
  rw [brackets_eq_count, h.2]
  rfl

theorem opens_nil : Opens 0 [] := ⟨rfl, rfl⟩

theorem opens_char {c : Char} (hquote : c ≠ '"') (hbracket : c ≠ '[') : Opens 0 [c] := by
  simp [Opens, behind, next, brackets, hquote, hbracket]

theorem opens_bare (h : ∀ c ∈ t, c ≠ '"' ∧ c ≠ '[') : Opens 0 t := by
  induction t with
  | nil => exact opens_nil
  | cons c t ih =>
    obtain ⟨⟨hquote, hbracket⟩, ht⟩ := List.forall_mem_cons.1 h
    exact (opens_char hquote hbracket).append (ih ht)

theorem hidden_singleton {c : Char} (hquote : c ≠ '"') (hslash : c ≠ '\\') : Hidden [c] := by
  simp [Hidden, behind, next, outer, hquote, hslash]

theorem hidden_escaped (c : Char) : Hidden ['\\', c] := by
  simp [Hidden, behind, next, outer]

theorem Quotable.opens (h : Quotable t) : Opens 0 ('"' :: (t ++ ['"'])) := by
  have hbehind : outside.behind ('"' :: (t ++ ['"'])) = inside.behind (t ++ ['"']) := rfl
  have hbrackets : outside.brackets ('"' :: (t ++ ['"'])) = 0 + inside.brackets (t ++ ['"']) := rfl
  refine ⟨?_, ?_⟩
  · rw [hbehind, behind_append, h.1]
    rfl
  · rw [hbrackets, brackets_append, h.1, h.2]
    rfl

/-! ### Spellings -/

theorem ne_of_hexDigit {c : Char} (h : (hexDigit c).isSome) : c ≠ '"' ∧ c ≠ '\\' := by
  constructor <;>
  · rintro rfl
    exact absurd h (by decide)

theorem hidden_piece {p : Piece} (h : p.SpelledAs u) : Hidden u := by
  cases h with
  | raw space quote backslash => exact hidden_singleton quote backslash
  | short escape => exact hidden_escaped _
  | @hex a b c d n digits =>
    simp only [codeUnit, Option.bind_eq_bind, Option.bind_eq_some_iff] at digits
    obtain ⟨_, ha, _, hb, _, hc, _, hd, -⟩ := digits
    have hdigit : ∀ {c : Char} {n : Nat}, hexDigit c = some n → Hidden [c] := by
      intro c n hc
      obtain ⟨hquote, hslash⟩ := ne_of_hexDigit (Option.isSome_of_eq_some hc)
      exact hidden_singleton hquote hslash
    exact (hidden_escaped 'u').append <| (hdigit ha).append <| (hdigit hb).append <|
      (hdigit hc).append (hdigit hd)

theorem hidden_string {ps : List Piece} (h : StringAs ps u) : Hidden u := by
  induction h with
  | nil => exact hidden_nil
  | cons piece rest ih => exact (hidden_piece piece).append ih

theorem ne_of_isDigit {c : Char} (h : c.isDigit = true) : c ≠ '"' ∧ c ≠ '[' := by
  constructor <;>
  · rintro rfl
    exact absurd h (by decide)

theorem opens_digits {ds : Text} (h : ∀ c ∈ ds, c.isDigit = true) : Opens 0 ds :=
  opens_bare fun c hc => ne_of_isDigit (h c hc)

theorem opens_minus (negative : Bool) : Opens 0 (if negative then ['-'] else []) := by
  cases negative
  · exact opens_nil
  · exact opens_char (by decide) (by decide)

theorem opens_sign {negative : Bool} (h : SignAs negative u) : Opens 0 u := by
  cases h with
  | none => exact opens_nil
  | plus => exact opens_char (by decide) (by decide)
  | minus => exact opens_char (by decide) (by decide)

theorem opens_fraction {f : Option Text} (h : FractionAs f u) : Opens 0 u := by
  cases h with
  | none => exact opens_nil
  | some digits =>
    exact (opens_char (c := '.') (by decide) (by decide)).append (opens_digits digits.2)

theorem opens_exponent {e : Option (Bool × Text)} (h : ExponentAs e u) : Opens 0 u := by
  cases h with
  | none => exact opens_nil
  | @some e negative sign ds letter signed digits =>
    have hletter : Opens 0 [e] := by
      rcases letter with rfl | rfl <;> exact opens_char (by decide) (by decide)
    exact hletter.append ((opens_sign signed).append (opens_digits digits.2))

theorem opens_number {k : Numeral} (h : k.SpelledAs u) : Opens 0 u := by
  obtain ⟨digits, leading, hf, he⟩ := h
  exact (opens_minus _).append <| (opens_digits digits.2).append <|
    (opens_fraction hf).append (opens_exponent he)

def Token.brackets : Token → Nat
  | .openArray => 1
  | _ => 0

def tokensBrackets : List Token → Nat
  | [] => 0
  | k :: ks => k.brackets + tokensBrackets ks

theorem tokensBrackets_append (ks ls : List Token) :
    tokensBrackets (ks ++ ls) = tokensBrackets ks + tokensBrackets ls := by
  induction ks with
  | nil => exact (Nat.zero_add _).symm
  | cons k ks ih => rw [List.cons_append, tokensBrackets, tokensBrackets, ih, Nat.add_assoc]

theorem opens_token {k : Token} (h : k.SpelledAs u) : Opens k.brackets u := by
  cases h with
  | number h => exact opens_number h
  | string h => exact (hidden_string h).quotable.opens
  | _ => exact ⟨rfl, rfl⟩

theorem opens_tokens {ks : List Token} (h : TokensAs ks t) : Opens (tokensBrackets ks) t := by
  induction h with
  | nil => exact opens_nil
  | @space c ks t blank rest ih =>
    have hc : Opens 0 [c] := by
      refine opens_char ?_ ?_ <;>
      · rintro rfl
        exact absurd blank (by decide)
    have hall := hc.append ih
    rwa [Nat.zero_add] at hall
  | token first rest ih => exact (opens_token first).append ih

/-! ### Trees and values -/

namespace Tree

mutual

/-- The arrays of a tree, itself and all that it holds. -/
def arrays : Tree → Nat
  | .null | .bool _ | .number _ | .string _ => 0
  | .array vs => itemsArrays vs + 1
  | .object ms => membersArrays ms

def itemsArrays : List Tree → Nat
  | [] => 0
  | v :: vs => v.arrays + itemsArrays vs

def membersArrays : List (List Piece × Tree) → Nat
  | [] => 0
  | (_, v) :: ms => v.arrays + membersArrays ms

end

mutual

theorem brackets_tokens (v : Tree) : tokensBrackets v.tokens = v.arrays := by
  cases v with
  | null | bool _ | number _ | string _ => simp [tokens, arrays, tokensBrackets, Token.brackets]
  | array vs =>
    simp [tokens, arrays, tokensBrackets, Token.brackets, tokensBrackets_append,
      brackets_itemTokens vs, Nat.add_comm]
  | object ms =>
    simp [tokens, arrays, tokensBrackets, Token.brackets, tokensBrackets_append,
      brackets_memberTokens ms]
termination_by sizeOf v

theorem brackets_itemTokens (vs : List Tree) : tokensBrackets (itemTokens vs) = itemsArrays vs := by
  match vs with
  | [] => simp [itemTokens, itemsArrays, tokensBrackets]
  | [v] => simp [itemTokens_singleton, itemsArrays, brackets_tokens v]
  | v :: w :: vs =>
    have hrest := brackets_itemTokens (w :: vs)
    simp [itemTokens_cons_cons, itemsArrays, tokensBrackets, Token.brackets, tokensBrackets_append,
      brackets_tokens v, hrest]
termination_by sizeOf vs

theorem brackets_memberTokens (ms : List (List Piece × Tree)) :
    tokensBrackets (memberTokens ms) = membersArrays ms := by
  match ms with
  | [] => simp [memberTokens, membersArrays, tokensBrackets]
  | [(key, v)] =>
    simp [memberTokens_singleton, membersArrays, tokensBrackets, Token.brackets, brackets_tokens v]
  | (key, v) :: m :: ms =>
    have hrest := brackets_memberTokens (m :: ms)
    simp [memberTokens_cons_cons, membersArrays, tokensBrackets, Token.brackets,
      tokensBrackets_append, brackets_tokens v, hrest]
termination_by sizeOf ms

end

theorem arrays_le_itemsArrays {vs : List Tree} {v : Tree} (hv : v ∈ vs) :
    v.arrays ≤ itemsArrays vs := by
  induction vs with
  | nil => cases hv
  | cons w vs ih =>
    simp only [itemsArrays]
    rcases List.mem_cons.1 hv with rfl | hv
    · exact Nat.le_add_right ..
    · exact Nat.le_trans (ih hv) (Nat.le_add_left ..)

theorem opens_of_spelledAs {v : Tree} (h : v.SpelledAs t) : Opens v.arrays t :=
  brackets_tokens v ▸ opens_tokens h

end Tree

namespace Value

mutual

def arrays : Value → Nat
  | .null | .bool _ | .integer _ | .real _ | .string _ => 0
  | .array vs => itemsArrays vs + 1
  | .object ms => membersArrays ms

def itemsArrays : List Value → Nat
  | [] => 0
  | v :: vs => v.arrays + itemsArrays vs

def membersArrays : List (Text × Value) → Nat
  | [] => 0
  | (_, v) :: ms => v.arrays + membersArrays ms

end

theorem membersArrays_setMember (k : Text) (v : Value) (ms : List (Text × Value)) :
    membersArrays (setMember k v ms) ≤ v.arrays + membersArrays ms := by
  induction ms with
  | nil => exact Nat.le_refl _
  | cons m ms ih =>
    obtain ⟨k', w⟩ := m
    simp only [setMember]
    split
    · simp only [membersArrays]
      omega
    · split
      · exact Nat.le_refl _
      · simp only [membersArrays]
        omega

theorem arrays_of_numeral {k : Numeral} {w : Value} (h : k.value = some w) : w.arrays = 0 := by
  unfold Numeral.value at h
  dsimp only at h
  split at h
  · exact Option.some.inj h ▸ rfl
  · split at h
    · exact Option.some.inj h ▸ rfl
    · obtain ⟨x, -, rfl⟩ := Option.map_eq_some_iff.1 h
      rfl

mutual

theorem arrays_le_of_ofTree {depth : Nat} {v : Tree} {w : Value} (h : ofTree depth v = some w) :
    w.arrays ≤ v.arrays := by
  cases v with
  | null | bool _ =>
    obtain rfl := Option.some.inj h
    exact Nat.le_refl 0
  | number k => exact Nat.le_of_eq (arrays_of_numeral h)
  | string ps =>
    obtain ⟨s, -, rfl⟩ := Option.map_eq_some_iff.1 h
    exact Nat.le_refl 0
  | array vs =>
    rw [ofTree] at h
    split at h
    · cases h
    · obtain ⟨ws, hws, rfl⟩ := Option.map_eq_some_iff.1 h
      exact Nat.succ_le_succ (itemsArrays_le_of_ofItems hws)
  | object ms =>
    rw [ofTree] at h
    split at h
    · cases h
    · obtain ⟨ws, hws, rfl⟩ := Option.map_eq_some_iff.1 h
      simpa [arrays, Tree.arrays, membersArrays] using membersArrays_le_of_ofMembers hws
termination_by sizeOf v

theorem itemsArrays_le_of_ofItems {depth : Nat} {vs : List Tree} {ws : List Value}
    (h : ofItems depth vs = some ws) : itemsArrays ws ≤ Tree.itemsArrays vs := by
  match vs with
  | [] =>
    obtain rfl := Option.some.inj h
    exact Nat.le_refl 0
  | v :: vs =>
    simp only [ofItems, Option.bind_eq_bind, Option.bind_eq_some_iff, Option.pure_def,
      Option.some.injEq] at h
    obtain ⟨w, hw, ws, hws, rfl⟩ := h
    exact Nat.add_le_add (arrays_le_of_ofTree hw) (itemsArrays_le_of_ofItems hws)
termination_by sizeOf vs

theorem membersArrays_le_of_ofMembers {depth : Nat} {ms : List (List Piece × Tree)}
    {done ws : List (Text × Value)} (h : ofMembers depth ms done = some ws) :
    membersArrays ws ≤ Tree.membersArrays ms + membersArrays done := by
  match ms with
  | [] =>
    obtain rfl := Option.some.inj h
    exact Nat.le_add_left ..
  | (key, v) :: ms =>
    simp only [ofMembers, Option.bind_eq_bind, Option.bind_eq_some_iff] at h
    obtain ⟨k, -, w, hw, h⟩ := h
    have hfirst := arrays_le_of_ofTree hw
    have hset := membersArrays_setMember k w done
    have hrest := membersArrays_le_of_ofMembers h
    simp only [Tree.membersArrays]
    omega
termination_by sizeOf ms

end

/-! ### Writing -/

theorem opens_writeString (t : Text) : Opens 0 (writeString t) := by
  obtain ⟨ps, -, spelled⟩ := textAs_writeChars t
  exact (hidden_string spelled).quotable.opens

theorem opens_digitsOf (n : Nat) : Opens 0 (Decimal.digitsOf n) :=
  opens_digits fun _ hc => Nat.isDigit_of_mem_toDigits (by decide) (by decide) hc

theorem opens_writeInt (n : Int) : Opens 0 (writeInt n) := by
  cases n with
  | ofNat n => exact opens_digitsOf n
  | negSucc n => exact (opens_minus true).append (opens_digitsOf (n + 1))

theorem opens_writeDigits {ds : Text} (h : ∀ c ∈ ds, c.isDigit = true) (e : Int) :
    Opens 0 (writeDigits ds e) := by
  have hzeros : ∀ n, Opens 0 (List.replicate n '0') := fun n =>
    opens_digits fun c hc => by rw [List.eq_of_mem_replicate hc]; rfl
  have htake : ∀ n, Opens 0 (ds.take n) := fun n =>
    opens_digits fun c hc => h c (List.mem_of_mem_take hc)
  have hdrop : ∀ n, Opens 0 (ds.drop n) := fun n =>
    opens_digits fun c hc => h c (List.mem_of_mem_drop hc)
  have hpoint : Opens 0 ['.'] := opens_char (by decide) (by decide)
  have hmantissa : Opens 0 (if ds.length = 1 then ds else ds.take 1 ++ '.' :: ds.drop 1) := by
    split
    · exact opens_digits h
    · exact (htake 1).append (hpoint.append (hdrop 1))
  have hsign : Opens 0 [if e < 0 then '-' else '+'] := by
    split <;> exact opens_char (by decide) (by decide)
  unfold writeDigits
  split
  · exact (Opens.append ⟨rfl, rfl⟩ (hzeros _)).append (opens_digits h)
  · split
    · dsimp only
      split
      · exact ((opens_digits h).append (hzeros _)).append ⟨rfl, rfl⟩
      · exact (htake _).append (hpoint.append (hdrop _))
    · have hletter : Opens 0 ['e'] := opens_char (by decide) (by decide)
      exact hmantissa.append (hletter.append (hsign.append (opens_digitsOf e.natAbs)))

theorem opens_writeReal (x : Float) : Opens 0 (writeReal x) := by
  have hzero : Opens 0 "0.0".toList := ⟨rfl, rfl⟩
  have hsigned : ∀ {negative : Prop} [Decidable negative] {body : Text}, Opens 0 body →
      Opens 0 (if negative then '-' :: body else body) := by
    intro negative _ body hbody
    split
    · exact (opens_minus true).append hbody
    · exact hbody
  unfold writeReal
  refine hsigned ?_
  split
  · exact hzero
  · cases Decimal.shortest x with
    | none => exact hzero
    | some d =>
      refine opens_writeDigits (fun c hc => ?_) _
      exact Nat.isDigit_of_mem_toDigits (by decide) (by decide) (Text.mem_of_mem_dropEndWhile hc)

mutual

/-- What is written of a value has the value's arrays. -/
theorem opens_write (w : Value) : Opens w.arrays w.write := by
  cases w with
  | null => exact ⟨rfl, rfl⟩
  | bool b => cases b <;> exact ⟨rfl, rfl⟩
  | integer n => exact opens_writeInt n
  | real x => exact opens_writeReal x
  | string t => exact opens_writeString t
  | array vs =>
    have hopen : Opens 1 ['['] := ⟨rfl, rfl⟩
    have hclose : Opens 0 [']'] := ⟨rfl, rfl⟩
    have hall := (hopen.append (opens_writeItems vs)).append hclose
    rwa [Nat.add_zero, Nat.add_comm] at hall
  | object ms =>
    have hopen : Opens 0 ['\x7b'] := ⟨rfl, rfl⟩
    have hclose : Opens 0 ['\x7d'] := ⟨rfl, rfl⟩
    have hall := (hopen.append (opens_writeMembers ms)).append hclose
    rwa [Nat.add_zero, Nat.zero_add] at hall
termination_by sizeOf w

theorem opens_writeItems (vs : List Value) : Opens (itemsArrays vs) (writeItems vs) := by
  have hcomma : Opens 0 [','] := ⟨rfl, rfl⟩
  match vs with
  | [] => exact opens_nil
  | [v] => exact opens_write v
  | v :: w :: vs =>
    have hall := (opens_write v).append (hcomma.append (opens_writeItems (w :: vs)))
    rwa [Nat.zero_add] at hall
termination_by sizeOf vs

theorem opens_writeMembers (ms : List (Text × Value)) :
    Opens (membersArrays ms) (writeMembers ms) := by
  have hcolon : Opens 0 [':'] := ⟨rfl, rfl⟩
  have hcomma : Opens 0 [','] := ⟨rfl, rfl⟩
  match ms with
  | [] => exact opens_nil
  | [(k, v)] =>
    have hall := (opens_writeString k).append (hcolon.append (opens_write v))
    rwa [Nat.zero_add, Nat.zero_add] at hall
  | (k, v) :: m :: ms =>
    have hfirst := (opens_writeString k).append (hcolon.append (opens_write v))
    have hall := hfirst.append (hcomma.append (opens_writeMembers (m :: ms)))
    rwa [Nat.zero_add, Nat.zero_add, Nat.zero_add] at hall
termination_by sizeOf ms

end

theorem write_ne_of_mem {vs : List Tree} {v : Tree} (hv : v ∈ vs)
    (spelled : (Tree.array vs).SpelledAs t) {depth : Nat} {w : Value}
    (h : ofTree depth v = some w) : w.write ≠ t := by
  rintro rfl
  have hwhole := (Tree.opens_of_spelledAs spelled).2
  have hwritten := (opens_write w).2
  have hle := arrays_le_of_ofTree h
  have hitem := Tree.arrays_le_itemsArrays hv
  -- The array has a bracket of its own, which no item of it has.
  rw [hwritten, Tree.arrays] at hwhole
  omega

end Value

end StorageClient.Json
