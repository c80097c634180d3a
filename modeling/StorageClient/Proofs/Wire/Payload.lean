import StorageClient.Proofs.Wire.Slot

/-!
Texts that a reply carries. However its characters are spelled, a text comes out of a success as its
data and out of a failure as its message, character by character.
-/

namespace StorageClient.Reply

open Json

variable {s : Slot} {front back ends d u : Text} {ps : List Piece}

def quoted (u : Text) : Text := '"' :: (u ++ ['"'])

theorem string_spelledAs (h : StringAs ps u) : (Tree.string ps).SpelledAs (quoted u) := by
  have htoken : TokensAs [.string ps] (quoted u ++ []) := .token (.string h) .nil
  rw [List.append_nil] at htoken
  rwa [Tree.SpelledAs, Tree.tokens]

theorem isText_of_spells (h : Spells ps d) : IsText (.string ps) :=
  .inr ⟨ps, rfl, by rw [textOf_of_spells h]; rfl⟩

theorem isData_of_spells (h : Spells ps d) : IsData (.string ps) := by
  refine ⟨Nat.zero_le _, ?_⟩
  rw [Tree.Meaningful, textOf_of_spells h]
  rfl

/-- Whatever stands around it in an object that can be read, a text is carried over as it is: by a
success as its data, by a failure as its error message, or as its message if there is no error
message. Neither the spelling of its characters nor line ends behind the object matter. -/
theorem read_payload (spelling : TextAs d u) (around : s.SpelledAs front back)
    (readable : Readable (s.fill .null)) (hends : ∀ c ∈ ends, c = '\r' ∨ c = '\n') :
    (Spells s.key "data".toList → ReportsSuccess (s.fill .null) →
        read (front ++ (quoted u ++ back) ++ ends) = .success (some d)) ∧
      (Spells s.key "error_message".toList → ReportsFailure (s.fill .null) →
        read (front ++ (quoted u ++ back) ++ ends) = .failure d) ∧
      (Spells s.key "message".toList → ReportsFailure (s.fill .null) →
        (∀ v ∈ valuesOf "error_message" (s.fill .null), v = .null) →
        read (front ++ (quoted u ++ back) ++ ends) = .failure d) := by
  obtain ⟨ps, text, spells⟩ := spelling
  have spelled : (Tree.string ps).SpelledAs (quoted u) := string_spelledAs spells
  have htext : textOf ps = some d := textOf_of_spells text
  refine ⟨fun hkey success => ?_, fun hkey failure => ?_, fun hkey failure absent => ?_⟩
  · exact Slot.read_data hkey around spelled (isData_of_spells text) readable success hends
      fun _ given => .text given htext
  · have hvalue : valuesOf "error_message" (s.fill (.string ps)) = [.string ps] :=
      Slot.valuesOf_fill_of_eq (textOf_of_spells hkey) readable.errorMessage.1 _
    have hexplains : Explains (s.fill (.string ps)) d := .errorMessage (by simp [hvalue]) htext
    exact Slot.read_message hkey (by decide) (by decide) (by decide) around spelled
      (isText_of_spells text) readable failure hends hexplains
  · have hvalue : valuesOf "message" (s.fill (.string ps)) = [.string ps] :=
      Slot.valuesOf_fill_of_eq (textOf_of_spells hkey) readable.message.1 _
    have habsent : ∀ v ∈ valuesOf "error_message" (s.fill (.string ps)), v = .null := by
      rwa [Slot.valuesOf_fill_of_ne (Slot.textOf_ne_of_spells hkey (by decide)) _ .null]
    have hexplains : Explains (s.fill (.string ps)) d := .message habsent (by simp [hvalue]) htext
    exact Slot.read_message hkey (by decide) (by decide) (by decide) around spelled
      (isText_of_spells text) readable failure hends hexplains

/-- A raw letter, a code unit with a capital digit, a pair of surrogates and a short escape. -/
theorem textAs_mixture : TextAs "aé😀\"".toList "a\\u00E9\\ud83D\\uDe00\\\"".toList := by
  have text : Spells (.char 'a' :: ((codeUnits 'é').map .unit ++
      ((codeUnits '😀').map .unit ++ [.char '"']))) "aé😀\"".toList :=
    .char 'a' (.units 'é' (.units '😀' (.char '"' .nil)))
  have hunits : (codeUnits 'é').map Piece.unit = [.unit 0xE9] := by decide
  have hpair : (codeUnits '😀').map Piece.unit = [.unit 0xD83D, .unit 0xDE00] := by decide
  rw [hunits, hpair] at text
  exact ⟨_, text, .cons (.raw (by decide) (by decide) (by decide)) <| .cons (.hex rfl) <|
    .cons (.hex rfl) <| .cons (.hex rfl) <| .cons (.short rfl) .nil⟩

def failing (name : String) : Slot := ⟨[(plain "success", .bool false)], plain name, []⟩

theorem failing_spelledAs {s : String}
    (h : s.toList.all fun c => 0x20 ≤ c.toNat && c != '"' && c != '\\') :
    (failing s).SpelledAs
      ("\x7b\"success\":false,\"".toList ++ (s.toList ++ "\":".toList)) "\x7d".toList := by
  have hkey := TokensAs.token (plain_spelledAs h) (.token .colon .nil)
  have hfront := TokensAs.token .openObject <|
    .token (plain_spelledAs (s := "success") rfl) <| .token .colon <| .token .false <|
    .token .comma hkey
  refine ⟨?_, .token .closeObject .nil⟩
  simpa [failing, Tree.heldMembers, Tree.tokens] using hfront

/-- One spelling as the data of a success, as an error message and as a message. -/
theorem read_payload_mixture :
    (∀ c ∈ ['\r', '\n'], c = '\r' ∨ c = '\n') ∧
      (Readable (succeeding.fill .null) ∧ ReportsSuccess (succeeding.fill .null) ∧
        read ("\x7b\"status\":\"success\",\"data\":".toList ++
          (quoted "a\\u00E9\\ud83D\\uDe00\\\"".toList ++ "\x7d".toList) ++ ['\r', '\n']) =
            .success (some "aé😀\"".toList)) ∧
      (Readable ((failing "error_message").fill .null) ∧
        ReportsFailure ((failing "error_message").fill .null) ∧
        read ("\x7b\"success\":false,\"error_message\":".toList ++
          (quoted "a\\u00E9\\ud83D\\uDe00\\\"".toList ++ "\x7d".toList) ++ ['\r', '\n']) =
            .failure "aé😀\"".toList) ∧
      Readable ((failing "message").fill .null) ∧
      ReportsFailure ((failing "message").fill .null) ∧
      (∀ v ∈ valuesOf "error_message" ((failing "message").fill .null), v = .null) ∧
      read ("\x7b\"success\":false,\"message\":".toList ++
        (quoted "a\\u00E9\\ud83D\\uDe00\\\"".toList ++ "\x7d".toList) ++ ['\r', '\n']) =
          .failure "aé😀\"".toList := by
  have hends : ∀ c ∈ ['\r', '\n'], c = '\r' ∨ c = '\n' := by simp
  have readable_error : Readable ((failing "error_message").fill .null) := fields?_isSome_iff.1 rfl
  have readable_message : Readable ((failing "message").fill .null) := fields?_isSome_iff.1 rfl
  have failure_error : ReportsFailure ((failing "error_message").fill .null) := by
    refine .inr ⟨?_, ?_⟩ <;> simp [failing, Slot.fill, valuesOf, plain, textOf]
  have failure_message : ReportsFailure ((failing "message").fill .null) := by
    refine .inr ⟨?_, ?_⟩ <;> simp [failing, Slot.fill, valuesOf, plain, textOf]
  have absent : ∀ v ∈ valuesOf "error_message" ((failing "message").fill .null), v = .null := by
    simp [failing, Slot.fill, valuesOf, plain, textOf]
  have hdata := (read_payload textAs_mixture succeeding_spelledAs readable_succeeding hends).1
  have herror := (read_payload textAs_mixture (failing_spelledAs (s := "error_message") rfl)
    readable_error hends).2.1
  have hmessage := (read_payload textAs_mixture (failing_spelledAs (s := "message") rfl)
    readable_message hends).2.2
  exact ⟨hends, ⟨readable_succeeding, success_succeeding,
      hdata (spells_plain "data") success_succeeding⟩,
    ⟨readable_error, failure_error, herror (spells_plain "error_message") failure_error⟩,
    readable_message, failure_message, absent,
    hmessage (spells_plain "message") failure_message absent⟩

end StorageClient.Reply
