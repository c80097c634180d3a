import Mathlib.Data.List.Chain
import StorageClient.Proofs.Json.Grammar

/-!
Every text that the grammar derives from a tree is read as that tree: the scanner finds the tokens
and the machine builds the tree from them.
-/

namespace StorageClient.Json

/-! ### Tokens -/

theorem Numeral.head_of_spelledAs {n : Numeral} {u : Text} (h : n.SpelledAs u) (r : Text) :
    ∃ c t, u ++ r = c :: t ∧ (c = '-' ∨ c.isDigit = true) := by
  cases h with
  | @mk negative whole fraction exponent f e digits leading hf he =>
    cases negative with
    | true => exact ⟨'-', whole ++ (fraction ++ exponent) ++ r, by simp, .inl rfl⟩
    | false =>
      obtain ⟨c, t, ht, hc⟩ := head_of_digits digits (fraction ++ (exponent ++ r))
      exact ⟨c, t, by simpa using ht, .inr hc⟩

theorem scanToken_of_spelledAs {k : Token} {u r : Text} (h : k.SpelledAs u)
    (hr : ∀ n, k = .number n → EndsNumber r) : scanToken (u ++ r) = some (k, r) := by
  cases h with
  | string h => simp [scanToken, scanString_of_stringAs h r]
  | @number n _ h =>
    obtain ⟨c, t, ht, hc⟩ := Numeral.head_of_spelledAs h r
    have hscan := scanNumber_of_spelledAs h (hr n rfl)
    rw [ht] at hscan ⊢
    unfold scanToken
    split
    case h_11 => rw [hscan]; rfl
    all_goals
      rename_i heq
      obtain ⟨rfl, -⟩ := List.cons.inj heq
      exact absurd hc (by decide)
  | _ => rfl

theorem not_isSpace_of_isDigit {c : Char} (h : c.isDigit = true) : isSpace c = false := by
  cases hs : isSpace c with
  | false => rfl
  | true =>
    simp only [isSpace, Bool.or_eq_true, beq_iff_eq] at hs
    rcases hs with ((rfl | rfl) | rfl) | rfl <;> exact absurd h (by decide)

theorem head_of_token {k : Token} {u : Text} (h : k.SpelledAs u) :
    ∃ c t, u = c :: t ∧ isSpace c = false := by
  cases h with
  | number h =>
    obtain ⟨c, t, ht, hc⟩ := Numeral.head_of_spelledAs h []
    refine ⟨c, t, by simpa using ht, ?_⟩
    rcases hc with rfl | hc
    · rfl
    · exact not_isSpace_of_isDigit hc
  | _ => exact ⟨_, _, rfl, rfl⟩

/-- Two tokens of which not both are numbers. -/
def Apart (k k' : Token) : Prop := ∀ n n', k = .number n → k' ≠ .number n'

theorem endsNumber_of_tokensAs {ks : List Token} {t : Text} (h : TokensAs ks t)
    (hk : ∀ n, ks.head? ≠ some (.number n)) : EndsNumber t := by
  intro c hc
  cases h with
  | nil => simp at hc
  | space blank rest =>
    obtain rfl : _ = c := by simpa using hc
    simp only [isSpace, Bool.or_eq_true, beq_iff_eq] at blank
    rcases blank with ((rfl | rfl) | rfl) | rfl <;> decide
  | @token k ks u t first rest =>
    cases first with
    | number _ => exact absurd rfl (hk _)
    | _ =>
      obtain rfl : _ = c := by simpa using hc
      decide

theorem tokens_of_tokensAs {ks : List Token} {t : Text} (h : TokensAs ks t)
    (apart : ks.IsChain Apart) : tokens t = some ks := by
  induction h with
  | nil => simp [tokens]
  | space blank rest ih => rw [tokens, if_pos blank, ih apart]
  | @token k ks u t first rest ih =>
    -- Only a number looks at what follows it, and what follows is no number then.
    have hks : tokens t = some ks := ih apart.tail
    have hscan : scanToken (u ++ t) = some (k, t) := by
      refine scanToken_of_spelledAs first fun n hn => endsNumber_of_tokensAs rest fun n' hn' => ?_
      cases apart with
      | singleton => simp at hn'
      | cons_cons hk _ => exact hk n n' hn (by simpa using hn')
    obtain ⟨c, v, hu, hc⟩ := head_of_token first
    rw [hu, List.cons_append] at hscan ⊢
    rw [tokens, if_neg (by simp [hc])]
    split
    · next hnone => simp [hscan] at hnone
    · next k' r hsome =>
      obtain ⟨rfl, rfl⟩ : k = k' ∧ t = r := by simpa [hscan] using hsome
      rw [hks]
      rfl

/-! ### Trees -/

namespace Tree

theorem step_number {s : State} {st : List Frame} {n : Numeral} {next : State × List Frame}
    (h : step s st (.number n) = some next) : next.1 = .after (.number n) := by
  cases s with
  | value | firstItem =>
    obtain rfl := Option.some.inj h
    rfl
  | firstKey | nextKey _ | colon _ _ => cases h
  | after v =>
    cases st with
    | nil => cases h
    | cons frame st => cases frame <;> cases h

/-- What the machine accepts has no two numbers next to each other: a number ends a value, and no
value starts behind one. -/
theorem apart_of_build {ks : List Token} {s : State} {st : List Frame} {v : Tree}
    (h : build s st ks = some v) : ks.IsChain Apart := by
  induction ks generalizing s st with
  | nil => exact .nil
  | cons k ks ih =>
    cases hs : step s st k with
    | none => simp [build, hs] at h
    | some next =>
      have hb : build next.1 next.2 ks = some v := by simpa [build, hs] using h
      cases ks with
      | nil => exact .singleton k
      | cons k' ks =>
        refine .cons_cons ?_ (ih hb)
        -- Behind a number the machine waits for a comma or an end, whatever is open.
        rintro n n' rfl rfl
        cases hs' : step next.1 next.2 (.number n') with
        | none => simp [build, hs'] at hb
        | some _ =>
          rw [step_number hs] at hs'
          cases hst : next.2 with
          | nil => simp [hst, step] at hs'
          | cons frame st => cases frame <;> simp [hst, step] at hs'

theorem itemTokens_singleton (v : Tree) : itemTokens [v] = v.tokens := by rw [itemTokens]

theorem itemTokens_cons_cons (v w : Tree) (vs : List Tree) :
    itemTokens (v :: w :: vs) = v.tokens ++ .comma :: itemTokens (w :: vs) := by
  rw [itemTokens]
  simp

theorem memberTokens_singleton (key : List Piece) (v : Tree) :
    memberTokens [(key, v)] = .string key :: .colon :: v.tokens := by rw [memberTokens]

theorem memberTokens_cons_cons (key : List Piece) (v : Tree) (m : List Piece × Tree)
    (ms : List (List Piece × Tree)) :
    memberTokens ((key, v) :: m :: ms) =
      .string key :: .colon :: (v.tokens ++ .comma :: memberTokens (m :: ms)) := by
  rw [memberTokens]
  simp

theorem build_firstItem (v : Tree) (st : List Frame) (ks : List Token) :
    build .firstItem st (v.tokens ++ ks) = build .value (.array [] :: st) (v.tokens ++ ks) := by
  cases v <;> simp [tokens, build, step]

mutual

/-- The machine takes the tokens of a tree as one value, whatever is open around it. -/
theorem build_tokens (v : Tree) (st : List Frame) (ks : List Token) :
    build .value st (v.tokens ++ ks) = build (.after v) st ks := by
  match v with
  | .null | .bool _ | .number _ | .string _ => simp [tokens, build, step, opening]
  | .array [] => simp [tokens, itemTokens, build, step, opening]
  | .array (w :: vs) =>
    have hopen : build .value st ((array (w :: vs)).tokens ++ ks) =
        build .firstItem st (itemTokens (w :: vs) ++ .closeArray :: ks) := by
      simp [tokens, build, step, opening]
    have hfirst : build .firstItem st (itemTokens (w :: vs) ++ .closeArray :: ks) =
        build .value (.array [] :: st) (itemTokens (w :: vs) ++ .closeArray :: ks) := by
      cases vs with
      | nil => rw [itemTokens_singleton, build_firstItem]
      | cons w' vs => rw [itemTokens_cons_cons, List.append_assoc, build_firstItem]
    rw [hopen, hfirst, build_items w vs [] st ks]
    rfl
  | .object [] => simp [tokens, memberTokens, build, step, opening]
  | .object ((key, w) :: ms) =>
    have hopen : build .value st ((object ((key, w) :: ms)).tokens ++ ks) =
        build .firstKey st (memberTokens ((key, w) :: ms) ++ .closeObject :: ks) := by
      simp [tokens, build, step, opening]
    have hfirst : build .firstKey st (memberTokens ((key, w) :: ms) ++ .closeObject :: ks) =
        build (.nextKey []) st (memberTokens ((key, w) :: ms) ++ .closeObject :: ks) := by
      cases ms with
      | nil => rw [memberTokens_singleton]; simp [build, step]
      | cons m ms => rw [memberTokens_cons_cons]; simp [build, step]
    rw [hopen, hfirst, build_members key w ms [] st ks]
    rfl
termination_by sizeOf v

theorem build_items (v : Tree) (vs done : List Tree) (st : List Frame) (ks : List Token) :
    build .value (.array done :: st) (itemTokens (v :: vs) ++ .closeArray :: ks) =
      build (.after (.array (done.reverse ++ v :: vs))) st ks := by
  match vs with
  | [] =>
    rw [itemTokens_singleton, build_tokens v]
    simp [build, step]
  | w :: vs =>
    rw [itemTokens_cons_cons, List.append_assoc, build_tokens v]
    have hrest := build_items w vs (v :: done) st ks
    simpa [build, step] using hrest
termination_by sizeOf (v :: vs)

theorem build_members (key : List Piece) (v : Tree) (ms done : List (List Piece × Tree))
    (st : List Frame) (ks : List Token) :
    build (.nextKey done) st (memberTokens ((key, v) :: ms) ++ .closeObject :: ks) =
      build (.after (.object (done.reverse ++ (key, v) :: ms))) st ks := by
  match ms with
  | [] =>
    have hvalue := build_tokens v (.object done key :: st) (.closeObject :: ks)
    simpa [memberTokens_singleton, build, step] using hvalue
  | (key', w) :: ms =>
    have hvalue := build_tokens v (.object done key :: st)
      (.comma :: (memberTokens ((key', w) :: ms) ++ .closeObject :: ks))
    have hrest := build_members key' w ms ((key, v) :: done) st ks
    simp only [memberTokens_cons_cons, List.cons_append, List.append_assoc, build, step]
    rw [hvalue]
    simpa [build, step] using hrest
termination_by sizeOf ((key, v) :: ms)

end

/-- A text that spells a tree is read as that tree. -/
theorem ofText?_of_spelledAs {v : Tree} {t : Text} (h : v.SpelledAs t) : ofText? t = some v := by
  have hbuild : build .value [] v.tokens = some v := by
    have hb := build_tokens v [] []
    rwa [List.append_nil] at hb
  have htokens : Json.tokens t = some v.tokens := tokens_of_tokensAs h (apart_of_build hbuild)
  simp [ofText?, htokens, hbuild]

end Tree

end StorageClient.Json
