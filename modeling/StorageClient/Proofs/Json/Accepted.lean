import Mathlib.Data.List.TakeWhile
import StorageClient.Proofs.Json.Reading

/-!
Nothing is read that the grammar does not derive. Each scanner takes a spelling off the front of its
text, and the machine has read the tokens of what it holds; so a text is read exactly if it spells a
tree, and it spells at most one.
-/

namespace StorageClient.Json

/-! ### Strings -/

theorem stringAs_of_scanString {t r : Text} {ps : List Piece} (h : scanString t = some (ps, r)) :
    ∃ u, StringAs ps u ∧ t = u ++ '"' :: r := by
  fun_induction scanString t generalizing ps r with
  | case1 => simp at h
  | case2 t =>
    obtain ⟨rfl, rfl⟩ : [] = ps ∧ t = r := by simpa using h
    exact ⟨[], .nil, rfl⟩
  | case3 a b c d t ih =>
    obtain ⟨n, hn, h⟩ := Option.bind_eq_some_iff.1 h
    obtain ⟨⟨qs, r'⟩, hs, h⟩ := Option.bind_eq_some_iff.1 h
    obtain ⟨rfl, rfl⟩ : .unit n :: qs = ps ∧ r' = r := by simpa using h
    obtain ⟨u, hu, rfl⟩ := ih hs
    exact ⟨_, .cons (.hex hn) hu, rfl⟩
  | case4 e t _ ih =>
    obtain ⟨c, hc, h⟩ := Option.bind_eq_some_iff.1 h
    obtain ⟨⟨qs, r'⟩, hs, h⟩ := Option.bind_eq_some_iff.1 h
    obtain ⟨rfl, rfl⟩ : .char c :: qs = ps ∧ r' = r := by simpa using h
    obtain ⟨u, hu, rfl⟩ := ih hs
    exact ⟨_, .cons (.short hc) hu, rfl⟩
  | case5 => simp at h
  | case6 c t hquote _ _ hc ih =>
    obtain ⟨⟨qs, r'⟩, hs, h⟩ := Option.bind_eq_some_iff.1 h
    obtain ⟨rfl, rfl⟩ : .char c :: qs = ps ∧ r' = r := by simpa using h
    obtain ⟨u, hu, rfl⟩ := ih hs
    obtain ⟨hspace, hslash⟩ := not_or.1 hc
    exact ⟨_, .cons (.raw (Nat.not_lt.1 hspace) hquote hslash) hu, rfl⟩

/-! ### Numbers -/

theorem digits_of_scanDigits1 {t ds r : Text} (h : scanDigits1 t = some (ds, r)) :
    Digits ds ∧ t = ds ++ r := by
  unfold scanDigits1 at h
  split at h
  · simp at h
  · next hne =>
    obtain ⟨rfl, rfl⟩ : t.takeWhile Char.isDigit = ds ∧ t.dropWhile Char.isDigit = r := by
      simpa [scanDigits] using h
    refine ⟨⟨fun hnil => ?_, fun c hc => List.mem_takeWhile_imp hc⟩,
      List.takeWhile_append_dropWhile.symm⟩
    exact hne (t.dropWhile Char.isDigit) (by rw [scanDigits, hnil])

theorem digits_of_scanWhole {t ds r : Text} (h : scanWhole t = some (ds, r)) :
    Digits ds ∧ (ds.head? = some '0' → ds = ['0']) ∧ t = ds ++ r := by
  unfold scanWhole at h
  split at h
  · next t =>
    obtain ⟨rfl, rfl⟩ : ['0'] = ds ∧ t = r := by simpa using h
    have hzero : ∀ c ∈ ['0'], c.isDigit = true := by
      intro c hc
      obtain rfl := List.mem_singleton.1 hc
      rfl
    exact ⟨⟨by simp, hzero⟩, fun _ => rfl, rfl⟩
  · next hzero =>
    obtain ⟨hds, rfl⟩ := digits_of_scanDigits1 h
    refine ⟨hds, fun hhead => ?_, rfl⟩
    obtain ⟨ds', rfl⟩ := List.head?_eq_some_iff.1 hhead
    exact absurd rfl (hzero (ds' ++ r))

theorem fractionAs_of_scanFraction {t r : Text} {f : Option Text}
    (h : scanFraction t = some (f, r)) : ∃ u, FractionAs f u ∧ t = u ++ r := by
  unfold scanFraction at h
  split at h
  · next t =>
    obtain ⟨⟨ds, r'⟩, hs, h⟩ := Option.map_eq_some_iff.1 h
    obtain ⟨rfl, rfl⟩ : some ds = f ∧ r' = r := by simpa using h
    obtain ⟨hds, rfl⟩ := digits_of_scanDigits1 hs
    exact ⟨_, .some hds, rfl⟩
  · obtain ⟨rfl, rfl⟩ : none = f ∧ t = r := by simpa using h
    exact ⟨[], .none, rfl⟩

theorem signAs_scanSign (t : Text) : ∃ u, SignAs (scanSign t).1 u ∧ t = u ++ (scanSign t).2 := by
  unfold scanSign
  split
  · exact ⟨_, .minus, rfl⟩
  · exact ⟨_, .plus, rfl⟩
  · exact ⟨_, .none, rfl⟩

theorem exponentAs_of_scanExponent {t r : Text} {e : Option (Bool × Text)}
    (h : scanExponent t = some (e, r)) : ∃ u, ExponentAs e u ∧ t = u ++ r := by
  unfold scanExponent at h
  split at h
  · next c t =>
    split at h
    · next hletter =>
      obtain ⟨⟨ds, r'⟩, hs, h⟩ := Option.map_eq_some_iff.1 h
      obtain ⟨rfl, rfl⟩ : some ((scanSign t).1, ds) = e ∧ r' = r := by simpa using h
      obtain ⟨sign, hsign, ht⟩ := signAs_scanSign t
      obtain ⟨hds, hrest⟩ := digits_of_scanDigits1 hs
      refine ⟨_, .some hletter hsign hds, ?_⟩
      rw [List.cons_append, List.append_assoc, ← hrest, ← ht]
    · obtain ⟨rfl, rfl⟩ : none = e ∧ c :: t = r := by simpa using h
      exact ⟨[], .none, rfl⟩
  · obtain ⟨rfl, rfl⟩ : none = e ∧ [] = r := by simpa using h
    exact ⟨[], .none, rfl⟩

theorem scanMinus_eq (t : Text) :
    t = (if (scanMinus t).1 then ['-'] else []) ++ (scanMinus t).2 := by
  unfold scanMinus
  split <;> rfl

theorem spelledAs_of_scanNumber {t r : Text} {n : Numeral} (h : scanNumber t = some (n, r)) :
    ∃ u, n.SpelledAs u ∧ t = u ++ r := by
  simp only [scanNumber, Option.bind_eq_bind, Option.bind_eq_some_iff, Option.pure_def,
    Option.some.injEq, Prod.mk.injEq] at h
  obtain ⟨⟨whole, a⟩, hw, ⟨f, b⟩, hf, ⟨e, c⟩, he, rfl, rfl⟩ := h
  obtain ⟨hwhole, hlead, ha⟩ := digits_of_scanWhole hw
  obtain ⟨fraction, hfraction, hb⟩ := fractionAs_of_scanFraction hf
  obtain ⟨exponent, hexponent, hc⟩ := exponentAs_of_scanExponent he
  refine ⟨_, .mk hwhole hlead hfraction hexponent, ?_⟩
  dsimp only at ha hb hc
  rw [List.append_assoc, List.append_assoc, List.append_assoc, ← hc, ← hb, ← ha]
  exact scanMinus_eq t

/-! ### Tokens -/

theorem spelledAs_of_scanToken {t r : Text} {k : Token} (h : scanToken t = some (k, r)) :
    ∃ u, k.SpelledAs u ∧ t = u ++ r := by
  unfold scanToken at h
  split at h
  case h_10 t =>
    obtain ⟨⟨ps, r'⟩, hs, h⟩ := Option.map_eq_some_iff.1 h
    obtain ⟨rfl, rfl⟩ : .string ps = k ∧ r' = r := by simpa using h
    obtain ⟨u, hu, rfl⟩ := stringAs_of_scanString hs
    exact ⟨_, .string hu, by simp⟩
  case h_11 =>
    obtain ⟨⟨n, r'⟩, hs, h⟩ := Option.map_eq_some_iff.1 h
    obtain ⟨rfl, rfl⟩ : .number n = k ∧ r' = r := by simpa using h
    obtain ⟨u, hu, rfl⟩ := spelledAs_of_scanNumber hs
    exact ⟨u, .number hu, rfl⟩
  all_goals
    cases h
    exact ⟨_, by constructor, rfl⟩

theorem tokensAs_of_tokens {t : Text} {ks : List Token} (h : tokens t = some ks) :
    TokensAs ks t := by
  fun_induction tokens t generalizing ks with
  | case1 =>
    obtain rfl := Option.some.inj h
    exact .nil
  | case2 c t hspace ih => exact .space hspace (ih h)
  | case3 => simp at h
  | case4 c t _ k r hk ih =>
    obtain ⟨ks', hks, rfl⟩ := Option.map_eq_some_iff.1 h
    obtain ⟨u, hu, ht⟩ := spelledAs_of_scanToken hk
    rw [ht]
    exact .token hu (ih hks)

/-! ### Trees -/

namespace Tree

def heldItems (vs : List Tree) : List Token := vs.flatMap fun v => v.tokens ++ [.comma]

def heldMembers (ms : List (List Piece × Tree)) : List Token :=
  ms.flatMap fun m => .string m.1 :: .colon :: (m.2.tokens ++ [.comma])

def Frame.read : Frame → List Token
  | .array items => .openArray :: heldItems items.reverse
  | .object members key => .openObject :: (heldMembers members.reverse ++ [.string key, .colon])

def State.read : State → List Token
  | .value => []
  | .firstItem => [.openArray]
  | .firstKey => [.openObject]
  | .nextKey members => .openObject :: heldMembers members.reverse
  | .colon members key => .openObject :: (heldMembers members.reverse ++ [.string key])
  | .after v => v.tokens

/-- All tokens that have been read. The frame that was opened last comes first. -/
def readSoFar (s : State) (st : List Frame) : List Token :=
  st.reverse.flatMap Frame.read ++ s.read

theorem itemTokens_append (vs : List Tree) (v : Tree) :
    itemTokens (vs ++ [v]) = heldItems vs ++ v.tokens := by
  induction vs with
  | nil => exact itemTokens_singleton v
  | cons w vs ih =>
    cases vs with
    | nil => simp [itemTokens_cons_cons, itemTokens_singleton, heldItems]
    | cons w' vs => simpa [itemTokens_cons_cons, heldItems] using ih

theorem memberTokens_append (ms : List (List Piece × Tree)) (key : List Piece) (v : Tree) :
    memberTokens (ms ++ [(key, v)]) = heldMembers ms ++ .string key :: .colon :: v.tokens := by
  induction ms with
  | nil => exact memberTokens_singleton key v
  | cons m ms ih =>
    obtain ⟨key', w⟩ := m
    cases ms with
    | nil => simp [memberTokens_cons_cons, memberTokens_singleton, heldMembers]
    | cons m' ms => simpa [memberTokens_cons_cons, heldMembers] using ih

theorem readSoFar_opening {st st' : List Frame} {k : Token} {s : State}
    (h : opening st k = some (s, st')) : readSoFar s st' = st.reverse.flatMap Frame.read ++ [k] := by
  unfold opening at h
  split at h <;> first
    | cases h
      simp [readSoFar, State.read, tokens]
    | cases h

theorem readSoFar_step {s s' : State} {st st' : List Frame} {k : Token}
    (h : step s st k = some (s', st')) : readSoFar s' st' = readSoFar s st ++ [k] := by
  unfold step at h
  split at h
  · simpa [readSoFar, State.read] using readSoFar_opening h
  · cases h
    simp [readSoFar, State.read, tokens, itemTokens]
  · simpa [readSoFar, State.read, Frame.read, heldItems] using readSoFar_opening h
  · cases h
    simp [readSoFar, State.read, tokens, memberTokens]
  · cases h
    simp [readSoFar, State.read, heldMembers]
  · cases h
    simp [readSoFar, State.read]
  · cases h
    simp [readSoFar, State.read, Frame.read]
  · cases h
    simp [readSoFar, State.read, Frame.read, heldItems]
  · -- The last item has no comma behind it: the items held become those of the array.
    cases h
    simp [readSoFar, State.read, Frame.read, tokens, itemTokens_append]
  · cases h
    simp [readSoFar, State.read, Frame.read, heldMembers]
  · cases h
    simp [readSoFar, State.read, Frame.read, tokens, memberTokens_append]
  · cases h

/-- What the machine builds has the tokens that it was built from. -/
theorem tokens_of_build {s : State} {st : List Frame} {ks : List Token} {v : Tree}
    (h : build s st ks = some v) : v.tokens = readSoFar s st ++ ks := by
  -- Each token moves from what is left to what has been read.
  induction ks generalizing s st with
  | nil =>
    unfold build at h
    split at h
    · obtain rfl := Option.some.inj h
      simp [readSoFar, State.read]
    · cases h
    · contradiction
  | cons k ks ih =>
    cases hs : step s st k with
    | none => simp [build, hs] at h
    | some next =>
      have hb : build next.1 next.2 ks = some v := by simpa [build, hs] using h
      rw [ih hb, readSoFar_step hs, List.append_assoc]
      rfl

/-- What a text is read as, it spells. -/
theorem spelledAs_of_ofText? {v : Tree} {t : Text} (h : ofText? t = some v) : v.SpelledAs t := by
  obtain ⟨ks, hks, hv⟩ := Option.bind_eq_some_iff.1 h
  have htokens : v.tokens = ks := tokens_of_build hv
  rw [SpelledAs, htokens]
  exact tokensAs_of_tokens hks

/-- A text spells at most one tree. -/
theorem SpelledAs.unique {v w : Tree} {t : Text} (h : v.SpelledAs t) (k : w.SpelledAs t) : v = w :=
  Option.some.inj ((ofText?_of_spelledAs h).symm.trans (ofText?_of_spelledAs k))

end Tree

end StorageClient.Json
