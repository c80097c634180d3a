import StorageClient.Wire.Command

/-!
Content between double quotes, read back. A reader that knows nothing but the quote and the
backslash finds the end of the argument and the content that was meant.
-/

namespace StorageClient

namespace Escape

/-- What a reader meets between quotes: a character that stands alone, or a backslash and the
character behind it. -/
inductive Mark where
  | plain (c : Char)
  | pair (c : Char)
deriving DecidableEq, Repr

def Mark.char : Mark → Char
  | plain c | pair c => c

/-- What is met up to the first quote that no backslash precedes, and what follows that quote. -/
def scan : Text → Option (List Mark × Text)
  | [] => none
  | '"' :: t => some ([], t)
  | '\\' :: c :: t => (scan t).map fun (ms, r) => (.pair c :: ms, r)
  | c :: t => if c = '\\' then none else (scan t).map fun (ms, r) => (.plain c :: ms, r)

def IsSpecial (c : Char) : Prop := c = '\\' ∨ c = '"'

instance (c : Char) : Decidable (IsSpecial c) := inferInstanceAs (Decidable (_ ∨ _))

def encodeChar (c : Char) : Text := if IsSpecial c then ['\\', c] else [c]

def markOf (c : Char) : Mark := if IsSpecial c then .pair c else .plain c

/-- Backslashes that come in with a quote are not doubled, so each character is replaced by
itself. -/
theorem encode_cons (c : Char) (t : Text) : encode (c :: t) = encodeChar c ++ encode t := by
  have hhead : replace '"' ['\\', '"'] (if c = '\\' then ['\\', '\\'] else [c]) = encodeChar c := by
    by_cases hb : c = '\\'
    · subst hb
      rfl
    · by_cases hq : c = '"'
      · subst hq
        rfl
      · simp [replace, encodeChar, IsSpecial, hb, hq]
  have hfirst : replace '\\' ['\\', '\\'] (c :: t) =
      (if c = '\\' then ['\\', '\\'] else [c]) ++ replace '\\' ['\\', '\\'] t := rfl
  rw [encode, hfirst, replace_append, hhead, encode]

theorem encode_eq_flatMap (t : Text) : encode t = t.flatMap encodeChar := by
  induction t with
  | nil => rfl
  | cons c t ih => rw [encode_cons, ih, List.flatMap_cons]

theorem scan_encodeChar (c : Char) (t : Text) :
    scan (encodeChar c ++ t) = (scan t).map fun (ms, r) => (markOf c :: ms, r) := by
  by_cases hc : IsSpecial c
  · simp [encodeChar, markOf, hc, scan]
  · obtain ⟨hb, hq⟩ := not_or.1 hc
    simp [encodeChar, markOf, hc, scan, hb]

/-- The reader stops at the quote behind the content and has met its characters one by one. -/
theorem scan_encode (t rest : Text) :
    scan (encode t ++ '"' :: rest) = some (t.map markOf, rest) := by
  induction t with
  | nil => rfl
  | cons c t ih => rw [encode_cons, List.append_assoc, scan_encodeChar, ih]; rfl

theorem char_markOf (c : Char) : (markOf c).char = c := by
  unfold markOf
  split <;> rfl

theorem map_char_markOf (t : Text) : (t.map markOf).map Mark.char = t := by
  rw [List.map_map]
  exact List.map_id'' char_markOf t

theorem isSpecial_of_pair_mem {t : Text} {c : Char} (h : .pair c ∈ t.map markOf) : IsSpecial c := by
  obtain ⟨d, -, hd⟩ := List.mem_map.1 h
  unfold markOf at hd
  split at hd
  · next hs =>
    cases hd
    exact hs
  · cases hd

theorem encode_injective : Function.Injective encode := by
  intro t u h
  have hscan := (scan_encode t []).symm.trans (h ▸ scan_encode u [])
  have hmarks : t.map markOf = u.map markOf := congrArg Prod.fst (Option.some.inj hscan)
  rw [← map_char_markOf t, hmarks, map_char_markOf]

theorem length_encode (t : Text) :
    (encode t).length = t.length + (t.count '\\' + t.count '"') := by
  induction t with
  | nil => rfl
  | cons c t ih =>
    have hne : '\\' ≠ '"' := by decide
    rw [encode_cons, List.length_append, ih]
    by_cases hb : c = '\\'
    · subst hb
      simp [encodeChar, IsSpecial]
      omega
    · by_cases hq : c = '"'
      · subst hq
        simp [encodeChar, IsSpecial]
        omega
      · simp [encodeChar, IsSpecial, hb, hq]
        omega

end Escape

namespace Command
open Escape

def afterSpace (t : Text) : Text := (t.dropWhile (· ≠ ' ')).drop 1

/-- What a reader meets in the third word of a line, if that opens with a quote, and what follows
its closing quote. -/
def readThird (line : Text) : Option (List Mark × Text) :=
  match afterSpace (afterSpace line) with
  | '"' :: t => scan t
  | _ => none

theorem afterSpace_append {t : Text} (h : ' ' ∉ t) (rest : Text) :
    afterSpace (t ++ ' ' :: rest) = rest := by
  have hword : ∀ c ∈ t, decide (c ≠ ' ') = true := by
    intro c hc
    simp only [decide_eq_true_eq]
    rintro rfl
    exact h hc
  rw [afterSpace, List.dropWhile_append_of_pos hword]
  rfl

theorem line_createFile (path content : Text) : (createFile path content).line =
    "create_file".toList ++ ' ' :: (path ++ ' ' :: '"' :: (encode content ++ ['"'])) := by
  refine congrArg ("create_file".toList ++ ·) ?_
  simp [arguments]

/-- The line of a new file says exactly what the file holds: the reader stops at the last character
of the line, meets no pairs but `\\` and `\"`, and gets the content. To quote is to quote each
character, no two contents are quoted alike, and only backslashes and quotes make it longer. -/
theorem createFile_readThird (content : Text) {path : Text} (hpath : ' ' ∉ path) :
    (∃ ms, readThird (createFile path content).line = some (ms, []) ∧
        (∀ c, .pair c ∈ ms → c = '\\' ∨ c = '"') ∧ ms.map Mark.char = content) ∧
      encode content = content.flatMap encodeChar ∧ Function.Injective encode ∧
      (encode content).length = content.length + (content.count '\\' + content.count '"') := by
  have hthird : afterSpace (afterSpace (createFile path content).line) =
      '"' :: (encode content ++ ['"']) := by
    rw [line_createFile, afterSpace_append (by decide), afterSpace_append hpath]
  refine ⟨⟨content.map markOf, ?_, fun c => isSpecial_of_pair_mem, map_char_markOf content⟩,
    encode_eq_flatMap content, encode_injective, length_encode content⟩
  rw [readThird, hthird]
  exact scan_encode content []

/-- A path with a quote in it, and a content of quotes and backslashes up to its end. -/
theorem createFile_readThird_backslashes :
    ' ' ∉ "/a\"b".toList ∧
      (createFile "/a\"b".toList "\"\\\\\" n\\".toList).line =
        "create_file /a\"b \"\\\"\\\\\\\\\\\" n\\\\\"".toList ∧
      ∃ ms, readThird (createFile "/a\"b".toList "\"\\\\\" n\\".toList).line = some (ms, []) ∧
        (∀ c, .pair c ∈ ms → c = '\\' ∨ c = '"') ∧ ms.map Mark.char = "\"\\\\\" n\\".toList := by
  have hpath : ' ' ∉ "/a\"b".toList := by decide
  exact ⟨hpath, by decide +kernel, (createFile_readThird _ hpath).1⟩

end Command

end StorageClient
