import StorageClient.Proofs.Json.Accepted
import StorageClient.Proofs.Json.Brackets
import StorageClient.Proofs.Json.Denotation

/-!
What a value is written as: the tokens of a tree with nothing between them. The tree stands for the
value, is nested as deep as it is, and has the keys of its objects in ascending order. A text spells
one tree, and a tree stands for one value, so different values are written differently.
-/

namespace StorageClient.Json

open Place

/-! ### Tokens with nothing between them -/

inductive TightAs : List Token → Text → Prop
  | nil : TightAs [] []
  | token {k : Token} {ks : List Token} {u t : Text} (first : k.SpelledAs u)
      (rest : TightAs ks t) : TightAs (k :: ks) (u ++ t)

namespace TightAs

variable {ks ls : List Token} {t u : Text}

theorem append (h : TightAs ks t) (k : TightAs ls u) : TightAs (ks ++ ls) (t ++ u) := by
  induction h with
  | nil => exact k
  | token first rest ih =>
    rw [List.cons_append, List.append_assoc]
    exact .token first ih

theorem singleton {k : Token} (h : k.SpelledAs u) : TightAs [k] u := by
  have htoken := TightAs.token h .nil
  rwa [List.append_nil] at htoken

theorem tokensAs (h : TightAs ks t) : TokensAs ks t := by
  induction h with
  | nil => exact .nil
  | token first rest ih => exact .token first ih

end TightAs

theorem number_chars {n : Numeral} {u : Text} (h : n.SpelledAs u) {c : Char} (hc : c ∈ u) :
    c.isDigit = true ∨ c ∈ ['-', '+', '.', 'e', 'E'] := by
  obtain @⟨negative, whole, fraction, exponent, f, e, digits, -, hf, he⟩ := h
  simp only [List.mem_append] at hc
  rcases hc with hc | hc | hc | hc
  · cases negative with
    | true =>
      obtain rfl : c = '-' := by simpa using hc
      decide
    | false => simp at hc
  · exact .inl (digits.2 c hc)
  · cases hf with
    | none => simp at hc
    | some digits =>
      rcases List.mem_cons.1 hc with rfl | hc
      · decide
      · exact .inl (digits.2 c hc)
  · cases he with
    | none => simp at hc
    | some letter signed digits =>
      rcases List.mem_cons.1 hc with rfl | hc
      · rcases letter with rfl | rfl <;> decide
      · rcases List.mem_append.1 hc with hc | hc
        · cases signed with
          | none => simp at hc
          | plus | minus =>
            obtain rfl := List.mem_singleton.1 hc
            decide
        · exact .inl (digits.2 c hc)

theorem not_isSpace_of_token {k : Token} {u : Text} (h : k.SpelledAs u) :
    ∀ c ∈ outside.outer u, isSpace c = false := by
  have hmarks : ∀ c ∈ ['-', '+', '.', 'e', 'E'], isSpace c = false := by simp [isSpace]
  cases h with
  | number h =>
    intro c hc
    rcases number_chars h (mem_of_mem_outer hc) with hdigit | hmark
    · exact not_isSpace_of_isDigit hdigit
    · exact hmarks c hmark
  | @string ps t h =>
    obtain ⟨hbehind, houter⟩ := hidden_string h
    have hopen : outside.outer ('"' :: (t ++ ['"'])) = '"' :: inside.outer (t ++ ['"']) := rfl
    rw [hopen, outer_append, hbehind, houter]
    simp [outer, isSpace]
  | _ => simp [outer, next, isSpace]

/-- Tokens with nothing between them have no white space outside of strings. -/
theorem TightAs.not_isSpace {ks : List Token} {t : Text} (h : TightAs ks t) :
    ∀ c ∈ outside.outer t, isSpace c = false := by
  induction h with
  | nil => simp [outer]
  | @token k ks u t first rest ih =>
    intro c hc
    -- No token leaves a string open, so the next one starts outside.
    rw [outer_append, (opens_token first).1] at hc
    rcases List.mem_append.1 hc with hc | hc
    · exact not_isSpace_of_token first c hc
    · exact ih c hc

/-! ### Integers -/

theorem digits_digitsOf (n : Nat) : Digits (Decimal.digitsOf n) :=
  ⟨Nat.toDigits_ne_nil, fun _ hc => Nat.isDigit_of_mem_toDigits (by decide) (by decide) hc⟩

theorem eq_zero_of_head_digitsOf {n : Nat} (h : (Decimal.digitsOf n).head? = some '0') : n = 0 := by
  induction n using Nat.strong_induction_on with
  | _ n ih =>
    rw [Decimal.digitsOf, Nat.toDigits_eq_if (by decide)] at h
    split at h
    · exact Nat.digitChar_eq_zero.1 (Option.some.inj h)
    · next hlarge =>
      rw [List.head?_append_of_ne_nil _ Nat.toDigits_ne_nil] at h
      have hfront : n / 10 = 0 := ih (n / 10) (by omega) h
      omega

theorem spelledAs_writeInt (n : Int) : (Numeral.ofInt n).SpelledAs (Value.writeInt n) := by
  have hdigits : ∀ negative m, Numeral.SpelledAs ⟨negative, Decimal.digitsOf m, none, none⟩
      ((if negative then ['-'] else []) ++ Decimal.digitsOf m) := by
    intro negative m
    have hleading : (Decimal.digitsOf m).head? = some '0' → Decimal.digitsOf m = ['0'] := by
      intro h
      rw [eq_zero_of_head_digitsOf h]
      rfl
    have hspelled : Numeral.SpelledAs ⟨negative, Decimal.digitsOf m, none, none⟩ _ :=
      .mk (digits_digitsOf m) hleading .none .none
    rwa [List.append_nil, List.append_nil] at hspelled
  cases n with
  | ofNat m => exact hdigits false m
  | negSucc m =>
    have hneg : decide (Int.negSucc m < 0) = true := by simp
    rw [Numeral.ofInt, hneg]
    exact hdigits true (m + 1)

theorem exists_spells_writeString (s : Text) :
    ∃ ps, Spells ps s ∧ Token.SpelledAs (.string ps) (Value.writeString s) := by
  obtain ⟨ps, spells, spelled⟩ := textAs_writeChars s
  exact ⟨ps, spells, .string spelled⟩

/-! ### Values -/

namespace Value

mutual

/-- Integers fit a word, there are no doubles, and each object has its keys in ascending order. -/
def Canonical : Value → Prop
  | .null | .bool _ | .string _ => True
  | .integer n => FitsWord n
  | .real _ => False
  | .array vs => ItemsCanonical vs
  | .object ms => Ascending ms ∧ MembersCanonical ms

def ItemsCanonical : List Value → Prop
  | [] => True
  | v :: vs => v.Canonical ∧ ItemsCanonical vs

def MembersCanonical : List (Text × Value) → Prop
  | [] => True
  | (_, v) :: ms => v.Canonical ∧ MembersCanonical ms

end

mutual

def height : Value → Nat
  | .null | .bool _ | .integer _ | .real _ | .string _ => 0
  | .array vs => itemsHeight vs + 1
  | .object ms => membersHeight ms + 1

def itemsHeight : List Value → Nat
  | [] => 0
  | v :: vs => max v.height (itemsHeight vs)

def membersHeight : List (Text × Value) → Nat
  | [] => 0
  | (_, v) :: ms => max v.height (membersHeight ms)

end

end Value

namespace Tree

mutual

/-- The keys of every object spell texts in ascending order, none of them twice. -/
def KeysAscend : Tree → Prop
  | .null | .bool _ | .number _ | .string _ => True
  | .array vs => ItemsAscend vs
  | .object ms =>
    (∃ ks, List.Forall₂ Spells (ms.map (·.1)) ks ∧ ks.Pairwise (· < ·)) ∧ MembersAscend ms

def ItemsAscend : List Tree → Prop
  | [] => True
  | v :: vs => v.KeysAscend ∧ ItemsAscend vs

def MembersAscend : List (List Piece × Tree) → Prop
  | [] => True
  | (_, v) :: ms => v.KeysAscend ∧ MembersAscend ms

end

end Tree

namespace Value

open Json.Tree

mutual

theorem exists_tree_write {v : Value} (h : v.Canonical) : ∃ t : Tree, t.Denotes v ∧
    t.KeysAscend ∧ t.height = v.height ∧ TightAs t.tokens v.write := by
  match v with
  | .null => exact ⟨.null, .null, trivial, rfl, .singleton .null⟩
  | .bool true => exact ⟨.bool true, .bool true, trivial, rfl, .singleton .true⟩
  | .bool false => exact ⟨.bool false, .bool false, trivial, rfl, .singleton .false⟩
  | .integer n =>
    have spelled : (Token.number (.ofInt n)).SpelledAs (writeInt n) := .number (spelledAs_writeInt n)
    exact ⟨.number (.ofInt n), .integer h, trivial, rfl, .singleton spelled⟩
  | .real _ => exact h.elim
  | .string s =>
    obtain ⟨ps, spells, spelled⟩ := exists_spells_writeString s
    exact ⟨.string ps, .string spells, trivial, rfl, .singleton spelled⟩
  | .array vs =>
    obtain ⟨ts, items, keys, hheight, tight⟩ := exists_items_write h
    refine ⟨.array ts, .array items, keys, congrArg (· + 1) hheight, ?_⟩
    exact (TightAs.token .openArray tight).append (.singleton .closeArray)
  | .object ms =>
    obtain ⟨ascending, h⟩ := h
    obtain ⟨ts, spells, members, keys, hheight, tight⟩ := exists_members_write ascending h
    have horder : (ms.map (·.1)).Pairwise (· < ·) := List.pairwise_map.2 ascending
    refine ⟨.object ts, .object members (.refl ms) ascending, ⟨⟨_, spells, horder⟩, keys⟩,
      congrArg (· + 1) hheight, ?_⟩
    exact (TightAs.token .openObject tight).append (.singleton .closeObject)
termination_by sizeOf v

theorem exists_items_write {vs : List Value} (h : ItemsCanonical vs) : ∃ ts, ItemsDenote ts vs ∧
    ItemsAscend ts ∧ Tree.itemsHeight ts = itemsHeight vs ∧
    TightAs (itemTokens ts) (writeItems vs) := by
  match vs with
  | [] => exact ⟨[], .nil, trivial, rfl, .nil⟩
  | [v] =>
    obtain ⟨t, first, keys, hheight, tight⟩ := exists_tree_write h.1
    refine ⟨[t], .cons first .nil, ⟨keys, trivial⟩, congrArg (max · 0) hheight, ?_⟩
    rwa [itemTokens_singleton]
  | v :: w :: vs =>
    obtain ⟨t, first, keys, hheight, tight⟩ := exists_tree_write h.1
    obtain ⟨ts, rest, keys', hheight', tight'⟩ := exists_items_write h.2
    cases ts with
    | nil => cases rest
    | cons t' ts =>
      refine ⟨t :: t' :: ts, .cons first rest, ⟨keys, keys'⟩, congrArg₂ max hheight hheight', ?_⟩
      rw [itemTokens_cons_cons]
      exact tight.append (.token .comma tight')
termination_by sizeOf vs

theorem exists_members_write {ms : List (Text × Value)} (ascending : Ascending ms)
    (h : MembersCanonical ms) : ∃ ts, List.Forall₂ Spells (ts.map (·.1)) (ms.map (·.1)) ∧
      MembersDenote ts ms ∧ MembersAscend ts ∧ Tree.membersHeight ts = membersHeight ms ∧
      TightAs (memberTokens ts) (writeMembers ms) := by
  match ms with
  | [] => exact ⟨[], .nil, .nil, trivial, rfl, .nil⟩
  | [(k, v)] =>
    obtain ⟨key, spells, spelled⟩ := exists_spells_writeString k
    obtain ⟨t, value, keys, hheight, tight⟩ := exists_tree_write h.1
    refine ⟨[(key, t)], .cons spells .nil, .last spells value .nil (by simp), ⟨keys, trivial⟩,
      congrArg (max · 0) hheight, ?_⟩
    rw [memberTokens_singleton]
    exact .token spelled (.token .colon tight)
  | (k, v) :: m :: ms =>
    obtain ⟨key, spells, spelled⟩ := exists_spells_writeString k
    obtain ⟨t, value, keys, hheight, tight⟩ := exists_tree_write h.1
    obtain ⟨ts, spells', members, keys', hheight', tight'⟩ :=
      exists_members_write ascending.of_cons h.2
    have once : k ∉ (m :: ms).map (·.1) := (List.nodup_cons.1 ascending.nodup_keys).1
    cases ts with
    | nil => cases spells'
    | cons t' ts =>
      refine ⟨(key, t) :: t' :: ts, .cons spells spells', .last spells value members once,
        ⟨keys, keys'⟩, congrArg₂ max hheight hheight', ?_⟩
      rw [memberTokens_cons_cons]
      exact (TightAs.token spelled (.token .colon tight)).append (.token .comma tight')
termination_by sizeOf ms

end

/-- Different values are written differently. -/
theorem eq_of_write_eq {v w : Value} (hv : v.Canonical) (hw : w.Canonical)
    (h : v.write = w.write) : v = w := by
  obtain ⟨t, denotes, -, -, tight⟩ := exists_tree_write hv
  obtain ⟨u, denotes', -, -, tight'⟩ := exists_tree_write hw
  have hspelled : u.SpelledAs v.write := h ▸ tight'.tokensAs
  have heq : t = u := SpelledAs.unique tight.tokensAs hspelled
  have hread : ofTree t.height t = some v := ofTree_of_denotes denotes (Nat.le_refl _)
  have hread' : ofTree t.height t = some w :=
    ofTree_of_denotes (heq ▸ denotes') (Nat.le_refl _)
  exact Option.some.inj (hread.symm.trans hread')

end Value

end StorageClient.Json
