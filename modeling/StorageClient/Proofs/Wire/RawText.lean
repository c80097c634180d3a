import StorageClient.Proofs.Json.Accepted
import StorageClient.Proofs.Json.Brackets
import StorageClient.Proofs.Wire.Rewording

/-!
Lines that hold no object. They are success with their own text, unless they hold an array of
exactly five items that stand for the five known members, in their order.
-/

namespace StorageClient.Reply

open Json

/-- The known members of an object, in the order of an array that stands for them. -/
def listed (status flag data errorMessage message : Tree) : List (List Piece × Tree) :=
  [(plain "status", status), (plain "success", flag), (plain "data", data),
    (plain "error_message", errorMessage), (plain "message", message)]

/-- A text spells an array of five items which, as the known members of an object, can be read and
say how the request went. -/
inductive Lists (t : Text) : List (List Piece × Tree) → Prop
  | mk {s f d e m : Tree} (spelled : (Tree.array [s, f, d, e, m]).SpelledAs t)
      (readable : Readable (listed s f d e m)) (decisive : Decisive (listed s f d e m)) :
      Lists t (listed s f d e m)

theorem textOf_plain (s : String) : textOf (plain s) = some s.toList := by
  unfold plain
  induction s.toList with
  | nil => rfl
  | cons c t ih => simp [textOf, ih]

theorem keyed_listed (s f d e m : Tree) : keyed (listed s f d e m) =
    some [("status".toList, s), ("success".toList, f), ("data".toList, d),
      ("error_message".toList, e), ("message".toList, m)] := by
  simp only [listed, keyed, List.mapM_cons, List.mapM_nil, textOf_plain, Option.map_some,
    Option.bind_eq_bind, Option.bind_some, Option.pure_def]

theorem fields?_array (s f d e m : Tree) :
    fields? (.array [s, f, d, e, m]) = fields? (.object (listed s f d e m)) := by
  rw [fields?, fields?, keyed_listed]
  rfl

theorem listed_of_array {vs : List Tree} {f : Fields} (hf : fields? (.array vs) = some f) :
    ∃ s b d e m, vs = [s, b, d, e, m] := by
  unfold fields? at hf
  split at hf
  · contradiction
  · next s b d e m heq => exact ⟨s, b, d, e, m, by injection heq⟩
  · contradiction

/-- Fields that make a reply come from members that say how the request went. -/
theorem decisive_of_succeeded? {ms : List (List Piece × Tree)} {f : Fields}
    (hf : fields? (.object ms) = some f) (h : f.succeeded? ≠ none) : Decisive ms := by
  obtain ⟨ks, hks, hs, hb, -⟩ := fields?_eq_some_iff.1 hf
  by_contra silent
  simp only [Decisive, not_or, not_exists, not_and, not_not] at silent
  have hstatus : f.status = none := (text_of_read hks hs).2.2 silent.1
  have hflag : f.success = none := (flag_of_read hks hb).2.2 silent.2
  exact h (by rw [Fields.succeeded?, hstatus, hflag])

/-- A text that makes a reply holds an object or lists the members of one. -/
theorem lists_of_structured? {t : Text} {r : Reply} (h : structured? t = some r) :
    (∃ ms, (Tree.object ms).SpelledAs t) ∨ ∃ ms, Lists t ms := by
  obtain ⟨v, hv, hfields⟩ := Option.bind_eq_some_iff.1 h
  obtain ⟨f, hf, hr⟩ := Option.bind_eq_some_iff.1 hfields
  have spelled := Tree.spelledAs_of_ofText? hv
  cases v with
  | object ms => exact .inl ⟨ms, spelled⟩
  | array vs =>
    obtain ⟨s, b, d, e, m, rfl⟩ := listed_of_array hf
    rw [fields?_array] at hf
    have hsays : f.succeeded? ≠ none := fun hnone => by simp [ofFields, hnone] at hr
    exact .inr ⟨_, .mk spelled (fields?_isSome_iff.1 (by simp [hf]))
      (decisive_of_succeeded? hf hsays)⟩
  | null => simp [fields?] at hf
  | bool b => simp [fields?] at hf
  | number n => simp [fields?] at hf
  | string ps => simp [fields?] at hf

theorem read_of_lists {raw : Text} {ms : List (List Piece × Tree)} (h : Lists (cut raw) ms)
    (r : Reply) : read raw = r ↔ Means ms r := by
  obtain ⟨spelled, readable, decisive⟩ := h
  obtain ⟨f, hf⟩ := Option.isSome_iff_exists.1 (fields?_isSome_iff.2 readable)
  obtain ⟨r', hr'⟩ := Option.isSome_iff_exists.1 (ofFields_isSome (succeeded?_ne_none hf decisive))
  have hread : read raw = r' := by
    simp [read, structured?, Tree.ofText?_of_spelledAs spelled, fields?_array, hf, hr']
  rw [means_iff hf decisive, hread, hr', Option.some.injEq]

/-! ### Data that come with a list -/

theorem length_of_textOf {ps : List Piece} {s : Text} (h : textOf ps = some s) :
    s.length ≤ ps.length := by
  fun_induction textOf ps generalizing s with
  | case1 =>
    obtain rfl := Option.some.inj h
    exact Nat.le_refl 0
  | case2 c ps ih | case5 n m ps _ _ ih | case7 n ps _ _ ih =>
    obtain ⟨s, hs, rfl⟩ := Option.map_eq_some_iff.1 h
    exact Nat.succ_le_succ (ih hs)
  | case3 n m ps _ ih =>
    obtain ⟨s, hs, rfl⟩ := Option.map_eq_some_iff.1 h
    exact Nat.succ_le_succ (Nat.le_succ_of_le (ih hs))
  | case4 | case6 => cases h

theorem length_of_stringAs {ps : List Piece} {u : Text} (h : StringAs ps u) :
    ps.length ≤ u.length := by
  induction h with
  | nil => exact Nat.le_refl 0
  | cons piece rest ih =>
    rw [List.length_cons, List.length_append]
    cases piece <;> simp <;> omega

theorem length_of_tokensAs {ks : List Token} {t : Text} (h : TokensAs ks t) {ps : List Piece}
    (hps : .string ps ∈ ks) : ps.length < t.length := by
  induction h with
  | nil => cases hps
  | space blank rest ih => exact Nat.lt_succ_of_lt (ih hps)
  | @token k ks u t first rest ih =>
    rw [List.length_append]
    rcases List.mem_cons.1 hps with rfl | hps
    · cases first with
      | string h =>
        have hle := length_of_stringAs h
        simp only [List.length_cons, List.length_append]
        omega
    · exact Nat.lt_add_left u.length (ih hps)

/-- The data of a list are a part of its text, and never all of it. -/
theorem not_carries_whole {t : Text} {ms : List (List Piece × Tree)} (h : Lists t ms) :
    ¬ Carries ms (some t) := by
  obtain @⟨s, f, d, e, m, spelled, -, -⟩ := h
  have hdata : valuesOf "data" (listed s f d e m) = [d] := by
    simp [valuesOf, listed, textOf_plain]
  intro hcarries
  cases hcarries with
  | @text ps _ given spells =>
    obtain rfl : .string ps = d := by simpa [hdata] using given
    have hmem : .string ps ∈ (Tree.array [s, f, .string ps, e, m]).tokens := by
      simp [Tree.tokens, Tree.itemTokens]
    exact absurd (length_of_tokensAs spelled hmem) (Nat.not_lt.2 (length_of_textOf spells))
  | @written v w given hnull htext value =>
    obtain rfl : v = d := by simpa [hdata] using given
    exact Value.write_ne_of_mem (by simp) spelled value rfl

/-- A line without an object is a success with its own text exactly if it does not list the known
members; if it does, its reply is what they mean. -/
theorem read_of_not_object {raw : Text}
    (noObject : ∀ ms, ¬ (Tree.object ms).SpelledAs (cut raw)) :
    (read raw = .success (some (cut raw)) ↔ ∀ ms, ¬ Lists (cut raw) ms) ∧
      ∀ ms, Lists (cut raw) ms → ∀ r, read raw = r ↔ Means ms r := by
  refine ⟨⟨fun hread ms listed => ?_, fun unlisted => ?_⟩, fun ms => read_of_lists⟩
  · exact not_carries_whole listed ((read_of_lists listed _).1 hread).2
  · have hnone : structured? (cut raw) = none := by
      cases h : structured? (cut raw) with
      | none => rfl
      | some r =>
        rcases lists_of_structured? h with ⟨ms, spelled⟩ | ⟨ms, listed⟩
        · exact absurd spelled (noObject ms)
        · exact absurd listed (unlisted ms)
    rw [read, hnone, Option.getD_none]

theorem digit_spelledAs {d : Char} (h : d.isDigit = true) :
    Token.SpelledAs (.number ⟨false, [d], none, none⟩) [d] :=
  .number (@Numeral.SpelledAs.mk false [d] [] [] none none ⟨by simp, by simpa using h⟩
    (fun hzero => by simpa using hzero) .none .none)

/-- An array of another length is the data of a success. -/
theorem read_of_not_object_pair :
    (∀ ms, ¬ (Tree.object ms).SpelledAs (cut "[1,2]\n".toList)) ∧
      read "[1,2]\n".toList = .success (some "[1,2]".toList) := by
  have hcut : cut "[1,2]\n".toList = "[1,2]".toList := by decide
  have spelled : (Tree.array [.number ⟨false, ['1'], none, none⟩,
      .number ⟨false, ['2'], none, none⟩]).SpelledAs "[1,2]".toList := by
    simp only [Tree.SpelledAs, Tree.tokens, Tree.itemTokens]
    exact .token .openArray <| .token (digit_spelledAs rfl) <| .token .comma <|
      .token (digit_spelledAs rfl) <| .token .closeArray .nil
  have noObject : ∀ ms, ¬ (Tree.object ms).SpelledAs (cut "[1,2]\n".toList) := by
    intro ms h
    rw [hcut] at h
    cases h.unique spelled
  refine ⟨noObject, ?_⟩
  have unlisted : ∀ ms, ¬ Lists (cut "[1,2]\n".toList) ms := by
    rintro - ⟨h, -, -⟩
    rw [hcut] at h
    cases h.unique spelled
  rw [(read_of_not_object noObject).1.2 unlisted, hcut]

/-- A refusal that is an array of five items is read as a failure. -/
theorem read_five_items :
    (∀ ms, ¬ (Tree.object ms).SpelledAs
        (cut "[\"error\",null,null,null,\"denied\"]".toList)) ∧
      read "[\"error\",null,null,null,\"denied\"]".toList = .failure "denied".toList := by
  have spelled : (Tree.array [.string (plain "error"), .null, .null, .null,
      .string (plain "denied")]).SpelledAs (cut "[\"error\",null,null,null,\"denied\"]".toList) := by
    simp only [Tree.SpelledAs, Tree.tokens, Tree.itemTokens]
    exact .token .openArray <| .token (plain_spelledAs (s := "error") rfl) <| .token .comma <|
      .token .null <| .token .comma <| .token .null <| .token .comma <| .token .null <|
      .token .comma <| .token (plain_spelledAs (s := "denied") rfl) <| .token .closeArray .nil
  refine ⟨fun ms h => ?_, ?_⟩
  · cases h.unique spelled
  · rw [read, structured?, Tree.ofText?_of_spelledAs spelled]
    rfl

end StorageClient.Reply
