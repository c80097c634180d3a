import StorageClient.Proofs.Json.Reading
import StorageClient.Proofs.Json.Values
import StorageClient.Proofs.Text.Trimming

/-!
Other spellings of one value. Strings may be spelled in several ways, keys included, and a tree has
the same value whichever they are; line ends behind a text are white space and no part of it.
-/

namespace StorageClient.Json

namespace Tree

mutual

/-- Trees that differ only in how their strings are spelled. -/
inductive Respells : Tree → Tree → Prop
  | refl (v : Tree) : Respells v v
  | string {ps qs : List Piece} (text : textOf ps = textOf qs) : Respells (.string ps) (.string qs)
  | array {vs ws : List Tree} (items : ItemsRespell vs ws) : Respells (.array vs) (.array ws)
  | object {ms ns : List (List Piece × Tree)} (members : MembersRespell ms ns) :
      Respells (.object ms) (.object ns)

inductive ItemsRespell : List Tree → List Tree → Prop
  | nil : ItemsRespell [] []
  | cons {v w : Tree} {vs ws : List Tree} (first : Respells v w) (rest : ItemsRespell vs ws) :
      ItemsRespell (v :: vs) (w :: ws)

inductive MembersRespell : List (List Piece × Tree) → List (List Piece × Tree) → Prop
  | nil : MembersRespell [] []
  | cons {key key' : List Piece} {v w : Tree} {ms ns : List (List Piece × Tree)}
      (text : textOf key = textOf key') (value : Respells v w) (rest : MembersRespell ms ns) :
      MembersRespell ((key, v) :: ms) ((key', w) :: ns)

end

end Tree

namespace Value

open Json.Tree

mutual

theorem ofTree_of_respells {v w : Tree} (h : v.Respells w) (depth : Nat) :
    ofTree depth v = ofTree depth w := by
  cases h with
  | refl v => rfl
  | string text => simp only [ofTree, text]
  | array items => simp only [ofTree, ofItems_of_respell items]
  | object members => simp only [ofTree, ofMembers_of_respell members]
termination_by sizeOf v

theorem ofItems_of_respell {vs ws : List Tree} (h : ItemsRespell vs ws) (depth : Nat) :
    ofItems depth vs = ofItems depth ws := by
  cases h with
  | nil => rfl
  | cons first rest => simp only [ofItems, ofTree_of_respells first, ofItems_of_respell rest]
termination_by sizeOf vs

theorem ofMembers_of_respell {ms ns : List (List Piece × Tree)} (h : MembersRespell ms ns)
    (depth : Nat) (done : List (Text × Value)) :
    ofMembers depth ms done = ofMembers depth ns done := by
  cases h with
  | nil => rfl
  | cons text value rest =>
    simp only [ofMembers, text, ofTree_of_respells value, ofMembers_of_respell rest]
termination_by sizeOf ms

end

end Value

/-! ### Line ends behind a text -/

theorem getLast?_append_digits (u : Text) {ds : Text} (h : Digits ds) :
    ∃ c, (u ++ ds).getLast? = some c ∧ c.isDigit = true := by
  obtain ⟨hne, hall⟩ := h
  refine ⟨ds.getLast hne, ?_, hall _ (List.getLast_mem hne)⟩
  rw [List.getLast?_append_of_ne_nil u hne, List.getLast?_eq_some_getLast hne]

theorem Numeral.last_of_spelledAs {n : Numeral} {u : Text} (h : n.SpelledAs u) :
    ∃ c, u.getLast? = some c ∧ c.isDigit = true := by
  cases h with
  | @mk negative whole fraction exponent f e digits leading hf he =>
    generalize (if negative then ['-'] else []) = sign
    cases he with
    | none =>
      cases hf with
      | none => simpa using getLast?_append_digits sign digits
      | some digits' => simpa using getLast?_append_digits (sign ++ (whole ++ ['.'])) digits'
    | @some letter _ mark _ _ signed digits' =>
      simpa using getLast?_append_digits (sign ++ (whole ++ (fraction ++ letter :: mark))) digits'

theorem last_of_token {k : Token} {u : Text} (h : k.SpelledAs u) :
    ∃ c, u.getLast? = some c ∧ c ≠ '\r' ∧ c ≠ '\n' := by
  cases h with
  | number h =>
    obtain ⟨c, hlast, hc⟩ := Numeral.last_of_spelledAs h
    refine ⟨c, hlast, ?_, ?_⟩
    · rintro rfl
      exact absurd hc (by decide)
    · rintro rfl
      exact absurd hc (by decide)
  | @string ps t h =>
    have hlast : ('"' :: t ++ ['"']).getLast? = some '"' := List.getLast?_concat
    exact ⟨'"', hlast, by decide, by decide⟩
  | _ => exact ⟨_, rfl, by decide, by decide⟩

/-- No token ends in a line end, so those behind a text are white space behind its last token. -/
theorem tokensAs_dropEndWhile {p : Char → Bool} (hp : ∀ c, p c = true → c = '\r' ∨ c = '\n')
    {ks : List Token} {t : Text} (h : TokensAs ks t) : TokensAs ks (Text.dropEndWhile p t) := by
  induction h with
  | nil => exact .nil
  | @space c ks t blank rest ih =>
    rw [Text.dropEndWhile_cons]
    split
    · next hnil =>
      rw [hnil] at ih
      split
      · exact ih
      · exact .space blank ih
    · exact .space blank ih
  | @token k ks u t first rest ih =>
    -- Nothing is dropped from a token, so only what is behind it changes.
    obtain ⟨c, hlast, hr, hn⟩ := last_of_token first
    have hc : p c = false := by
      cases hpc : p c with
      | false => rfl
      | true => exact ((hp c hpc).elim hr hn).elim
    rw [Text.dropEndWhile_append_of_last hlast hc]
    exact .token first ih

end StorageClient.Json
