import StorageClient.Proofs.Json.Writing
import StorageClient.Proofs.Wire.Slot

/-!
Data that is no text. All texts of one value make a success carry the same text, which is itself a
text of the value and tells it from all others.
-/

namespace StorageClient.Reply

open Json Json.Place

variable {s : Slot} {front back ends u : Text} {v : Value} {t : Tree}

theorem isData_of_denotes (h : t.Denotes v) (deep : t.height ≤ maxDataDepth) : IsData t := by
  have hvalue : Value.ofTree maxDataDepth t = some v := Value.ofTree_of_denotes h deep
  refine (Value.ofTree_isSome_iff maxDataDepth t).1 ?_
  rw [hvalue]
  rfl

theorem carries_of_denotes {ms : List (List Piece × Tree)} (given : t ∈ valuesOf "data" ms)
    (h : t.Denotes v) (deep : t.height ≤ maxDataDepth) (hnull : v ≠ .null)
    (htext : ∀ d, v ≠ .string d) : Carries ms (some v.write) := by
  refine .written given ?_ ?_ (Value.ofTree_of_denotes h deep)
  · rintro rfl
    cases h
    exact hnull rfl
  · rintro ps rfl
    cases h
    exact htext _ rfl

/-- A value that is neither null nor a text, without doubles and not nested too deep. In a reply
that succeeds all its texts make one text of data, with the keys of objects in ascending order and
no white space outside of strings; this text is a text of the value again, and of no other. -/
theorem read_canonical (canonical : v.Canonical) (hnull : v ≠ .null) (htext : ∀ d, v ≠ .string d)
    (deep : v.height ≤ maxDataDepth) (hkey : Spells s.key "data".toList)
    (around : s.SpelledAs front back) (readable : Readable (s.fill .null))
    (success : ReportsSuccess (s.fill .null)) (hends : ∀ c ∈ ends, c = '\r' ∨ c = '\n') :
    (∀ (t : Tree) u, t.Denotes v → t.height ≤ maxDataDepth → t.SpelledAs u →
        read (front ++ (u ++ back) ++ ends) = .success (some v.write)) ∧
      (∃ t : Tree, t.Denotes v ∧ t.SpelledAs v.write ∧ t.KeysAscend) ∧
      (∀ c ∈ outside.outer v.write, isSpace c = false) ∧
      read (front ++ (v.write ++ back) ++ ends) = .success (some v.write) ∧
      ∀ w, w.Canonical → w.write = v.write → w = v := by
  have hread : ∀ (t : Tree) u, t.Denotes v → t.height ≤ maxDataDepth → t.SpelledAs u →
      read (front ++ (u ++ back) ++ ends) = .success (some v.write) := by
    intro t u denotes deep' spelled
    exact Slot.read_data hkey around spelled (isData_of_denotes denotes deep') readable success
      hends fun _ given => carries_of_denotes given denotes deep' hnull htext
  obtain ⟨t, denotes, keys, hheight, tight⟩ := Value.exists_tree_write canonical
  have spelled : t.SpelledAs v.write := tight.tokensAs
  refine ⟨hread, ⟨t, denotes, spelled, keys⟩, tight.not_isSpace, ?_, ?_⟩
  · exact hread t v.write denotes (hheight ▸ deep) spelled
  · intro w hw heq
    exact Value.eq_of_write_eq hw canonical heq

/-- Keys out of order, one of them twice and the second time by its code unit. -/
def disordered : Tree :=
  .object [(plain "b", .number (.ofInt (-1))),
    (plain "a", .array [.bool true, .string [.unit 0xE9]]), ([.unit 0x62], .number (.ofInt 0))]

def ordered : Value :=
  .object [("a".toList, .array [.bool true, .string "é".toList]), ("b".toList, .integer 0)]

theorem disordered_denotes : disordered.Denotes ordered := by
  have hletter : Spells [.unit 0xE9] "é".toList := .units 'é' .nil
  have hkey : Spells [.unit 0x62] "b".toList := .units 'b' .nil
  have hitems : Tree.Denotes (.array [.bool true, .string [.unit 0xE9]])
      (.array [.bool true, .string "é".toList]) :=
    .array (.cons (.bool true) (.cons (.string hletter) .nil))
  have hzero : Tree.Denotes (.number (.ofInt 0)) (.integer 0) := .integer (by decide)
  have hlast : Tree.MembersDenote [(plain "a", .array [.bool true, .string [.unit 0xE9]]),
      ([.unit 0x62], .number (.ofInt 0))]
      [("a".toList, .array [.bool true, .string "é".toList]), ("b".toList, .integer 0)] :=
    .last (spells_plain "a") hitems (.last hkey hzero .nil (by simp)) (by decide)
  exact .object (.overwritten (spells_plain "b") rfl hlast (by decide)) (.refl _) (by decide)

theorem disordered_spelledAs : disordered.SpelledAs
    "\x7b\"b\":-1 ,\n\"a\":[true,\"\\u00E9\"], \"\\u0062\":0\x7d".toList := by
  have hminus : (Token.number (.ofInt (-1))).SpelledAs ['-', '1'] :=
    .number (spelledAs_writeInt (-1))
  have hzero : (Token.number (.ofInt 0)).SpelledAs ['0'] := .number (spelledAs_writeInt 0)
  have hletter : StringAs [.unit 0xE9] "\\u00E9".toList := .cons (.hex rfl) .nil
  have hkey : StringAs [.unit 0x62] "\\u0062".toList := .cons (.hex rfl) .nil
  simp only [Tree.SpelledAs, disordered, Tree.tokens, Tree.memberTokens, Tree.itemTokens]
  exact .token .openObject <| .token (plain_spelledAs (s := "b") rfl) <| .token .colon <|
    .token hminus <| .space rfl <| .token .comma <| .space rfl <|
    .token (plain_spelledAs (s := "a") rfl) <| .token .colon <| .token .openArray <|
    .token .true <| .token .comma <| .token (.string hletter) <| .token .closeArray <|
    .token .comma <| .space rfl <| .token (.string hkey) <| .token .colon <| .token hzero <|
    .token .closeObject .nil

/-- White space, an overwritten member and keys out of order leave no trace in the data. -/
theorem read_canonical_disordered :
    ordered.Canonical ∧ ordered ≠ .null ∧ (∀ d, ordered ≠ .string d) ∧
      ordered.height ≤ maxDataDepth ∧ disordered.height ≤ maxDataDepth ∧
      Readable (succeeding.fill .null) ∧ ReportsSuccess (succeeding.fill .null) ∧
      read ("\x7b\"status\":\"success\",\"data\":".toList ++
        ("\x7b\"b\":-1 ,\n\"a\":[true,\"\\u00E9\"], \"\\u0062\":0\x7d".toList ++ "\x7d".toList) ++
        ['\n']) = .success (some "\x7b\"a\":[true,\"é\"],\"b\":0\x7d".toList) := by
  have hzero : FitsWord 0 := by decide
  have canonical : ordered.Canonical :=
    ⟨by decide, ⟨trivial, trivial, trivial⟩, hzero, trivial⟩
  have hnull : ordered ≠ .null := by simp [ordered]
  have htext : ∀ d, ordered ≠ .string d := by simp [ordered]
  have deep : ordered.height ≤ maxDataDepth := by decide
  have deep' : disordered.height ≤ maxDataDepth := by decide
  have hwritten : ordered.write = "\x7b\"a\":[true,\"é\"],\"b\":0\x7d".toList := by rfl
  have hends : ∀ c ∈ ['\n'], c = '\r' ∨ c = '\n' := by simp
  have hread := (read_canonical canonical hnull htext deep (spells_plain "data")
    succeeding_spelledAs readable_succeeding success_succeeding hends).1
      disordered _ disordered_denotes deep' disordered_spelledAs
  rw [hwritten] at hread
  exact ⟨canonical, hnull, htext, deep, deep', readable_succeeding, success_succeeding, hread⟩

end StorageClient.Reply
