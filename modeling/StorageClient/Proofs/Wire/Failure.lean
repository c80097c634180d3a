import StorageClient.Proofs.Json.Reading
import StorageClient.Proofs.Json.Values
import StorageClient.Wire.Reply

/-!
Replies that report a failure. The syntax of such a reply says so by itself, but it is read as a
failure only if all of its known members can be read; otherwise the line is taken for raw text,
which is a success.
-/

namespace StorageClient.Reply

open Json

variable {ms : List (List Piece × Tree)}

def valuesOf (name : String) (ms : List (List Piece × Tree)) : List Tree :=
  (ms.filter fun m => textOf m.1 == some name.toList).map (·.2)

/-- An object whose status is a string other than `success`, or which has no status and whose
success flag is false. -/
def ReportsFailure (ms : List (List Piece × Tree)) : Prop :=
  (∃ ps, .string ps ∈ valuesOf "status" ms ∧ textOf ps ≠ some "success".toList) ∨
    (∀ v ∈ valuesOf "status" ms, v = .null) ∧ .bool false ∈ valuesOf "success" ms

/-- Null, or a string that spells a text. -/
def IsText (v : Tree) : Prop := v = .null ∨ ∃ ps, v = .string ps ∧ (textOf ps).isSome

def IsFlag (v : Tree) : Prop := v = .null ∨ ∃ b, v = .bool b

def IsData (v : Tree) : Prop := v.height ≤ maxDataDepth ∧ v.Meaningful

/-- A member of a name that is not repeated and has the right type, if there is one. -/
def Holds (name : String) (P : Tree → Prop) (ms : List (List Piece × Tree)) : Prop :=
  (valuesOf name ms).length ≤ 1 ∧ ∀ v ∈ valuesOf name ms, P v

structure Readable (ms : List (List Piece × Tree)) : Prop where
  keys : ∀ m ∈ ms, (textOf m.1).isSome
  status : Holds "status" IsText ms
  flag : Holds "success" IsFlag ms
  data : Holds "data" IsData ms
  errorMessage : Holds "error_message" IsText ms
  message : Holds "message" IsText ms

theorem textField_isSome_iff (v : Tree) : (textField v).isSome ↔ IsText v := by
  cases v <;> simp [textField, IsText]

theorem boolField_isSome_iff (v : Tree) : (boolField v).isSome ↔ IsFlag v := by
  cases v <;> simp [boolField, IsFlag]

theorem keyed_cons (key : List Piece) (v : Tree) (ms : List (List Piece × Tree)) :
    keyed ((key, v) :: ms) = (textOf key).bind fun k => (keyed ms).map ((k, v) :: ·) := by
  unfold keyed
  rw [List.mapM_cons]
  dsimp only
  cases textOf key with
  | none => rfl
  | some k => exact Option.map_eq_bind.symm

theorem keyed_isSome_iff : (keyed ms).isSome ↔ ∀ m ∈ ms, (textOf m.1).isSome := by
  induction ms with
  | nil => simp [keyed]
  | cons m ms ih =>
    rw [keyed_cons, List.forall_mem_cons, ← ih]
    cases textOf m.1 <;> simp

theorem valuesOf_of_keyed {ks : List (Text × Tree)} (h : keyed ms = some ks) (name : String) :
    (ks.filter fun k => k.1 == name.toList).map (·.2) = valuesOf name ms := by
  induction ms generalizing ks with
  | nil =>
    obtain rfl : ks = [] := by simpa [keyed] using h.symm
    rfl
  | cons m ms ih =>
    obtain ⟨key, v⟩ := m
    rw [keyed_cons] at h
    obtain ⟨k, hk, h⟩ := Option.bind_eq_some_iff.1 h
    obtain ⟨rest, hrest, rfl⟩ := Option.map_eq_some_iff.1 h
    have hih := ih hrest
    by_cases hn : k = name.toList
    · simpa [valuesOf, hk, hn] using hih
    · simpa [valuesOf, hk, hn] using hih

theorem member_of_keyed {ks : List (Text × Tree)} (h : keyed ms = some ks) (name : String) :
    member name ks =
      if (valuesOf name ms).length ≤ 1 then some ((valuesOf name ms).headD .null) else none := by
  rw [← valuesOf_of_keyed h name]
  unfold member
  split
  · next hnil => simp [hnil]
  · next hone => simp [hone]
  · next hnil hone =>
    cases hk : ks.filter fun k => k.1 == name.toList with
    | nil => exact absurd hk hnil
    | cons k rest =>
      cases rest with
      | nil => exact absurd hk (hone k.1 k.2)
      | cons _ _ => simp

/-- A member that is read alone, by a reader that accepts null. -/
theorem member_bind_isSome_iff {ks : List (Text × Tree)} (h : keyed ms = some ks) (name : String)
    {α : Type} {read : Tree → Option α} {P : Tree → Prop} (hread : ∀ v, (read v).isSome ↔ P v)
    (hnull : P .null) : ((member name ks).bind read).isSome ↔ Holds name P ms := by
  rw [member_of_keyed h, Holds]
  split
  · next hone =>
    cases hv : valuesOf name ms with
    | nil => simp [hread, hnull]
    | cons v rest =>
      obtain rfl : rest = [] := by simpa [hv] using hone
      simp [hread]
  · next hmany => simp [hmany]

/-- The fields of an object are its known members, each read by its own reader. -/
theorem fields?_eq_some_iff {f : Fields} : fields? (.object ms) = some f ↔
    ∃ ks, keyed ms = some ks ∧ (member "status" ks).bind textField = some f.status ∧
      (member "success" ks).bind boolField = some f.success ∧
      (member "data" ks).bind (Value.ofTree maxDataDepth) = some f.data ∧
      (member "error_message" ks).bind textField = some f.errorMessage ∧
      (member "message" ks).bind textField = some f.message := by
  -- The members are found first and read afterwards; each is paired with its reader here.
  simp only [fields?, fieldsOf, Option.bind_eq_bind, Option.bind_eq_some_iff, Option.pure_def,
    Option.some.injEq]
  constructor
  · rintro ⟨ks, hks, s, hs, b, hb, d, hd, e, he, m, hm, s', hs', b', hb', d', hd', e', he', m', hm',
      rfl⟩
    exact ⟨ks, hks, ⟨s, hs, hs'⟩, ⟨b, hb, hb'⟩, ⟨d, hd, hd'⟩, ⟨e, he, he'⟩, ⟨m, hm, hm'⟩⟩
  · rintro ⟨ks, hks, ⟨s, hs, hs'⟩, ⟨b, hb, hb'⟩, ⟨d, hd, hd'⟩, ⟨e, he, he'⟩, ⟨m, hm, hm'⟩⟩
    exact ⟨ks, hks, s, hs, b, hb, d, hd, e, he, m, hm, _, hs', _, hb', _, hd', _, he', _, hm', rfl⟩

/-- The fields of an object can be read exactly when it is readable. -/
theorem fields?_isSome_iff : (fields? (.object ms)).isSome ↔ Readable ms := by
  constructor
  · intro h
    obtain ⟨f, hf⟩ := Option.isSome_iff_exists.1 h
    obtain ⟨ks, hks, hs, hb, hd, he, hm⟩ := fields?_eq_some_iff.1 hf
    have holds := @member_bind_isSome_iff _ _ hks
    exact {
      keys := keyed_isSome_iff.1 (by simp [hks])
      status := (holds _ textField_isSome_iff (.inl rfl)).1 (by simp [hs])
      flag := (holds _ boolField_isSome_iff (.inl rfl)).1 (by simp [hb])
      data := (holds _ (Value.ofTree_isSome_iff _) ⟨Nat.zero_le _, trivial⟩).1 (by simp [hd])
      errorMessage := (holds _ textField_isSome_iff (.inl rfl)).1 (by simp [he])
      message := (holds _ textField_isSome_iff (.inl rfl)).1 (by simp [hm]) }
  · intro h
    obtain ⟨ks, hks⟩ := Option.isSome_iff_exists.1 (keyed_isSome_iff.2 h.keys)
    have holds := @member_bind_isSome_iff _ _ hks
    obtain ⟨s, hs⟩ := Option.isSome_iff_exists.1
      ((holds _ textField_isSome_iff (.inl rfl)).2 h.status)
    obtain ⟨b, hb⟩ := Option.isSome_iff_exists.1
      ((holds _ boolField_isSome_iff (.inl rfl)).2 h.flag)
    obtain ⟨d, hd⟩ := Option.isSome_iff_exists.1
      ((holds _ (Value.ofTree_isSome_iff _) ⟨Nat.zero_le _, trivial⟩).2 h.data)
    obtain ⟨e, he⟩ := Option.isSome_iff_exists.1
      ((holds _ textField_isSome_iff (.inl rfl)).2 h.errorMessage)
    obtain ⟨m, hm⟩ := Option.isSome_iff_exists.1
      ((holds _ textField_isSome_iff (.inl rfl)).2 h.message)
    rw [fields?_eq_some_iff (f := ⟨s, b, d, e, m⟩).2 ⟨ks, hks, hs, hb, hd, he, hm⟩]
    rfl

theorem read_of_mem_valuesOf {ks : List (Text × Tree)} (h : keyed ms = some ks) {name : String}
    {α : Type} {read : Tree → Option α} {a : α} (ha : (member name ks).bind read = some a)
    {v : Tree} (hv : v ∈ valuesOf name ms) : read v = some a := by
  rw [member_of_keyed h] at ha
  split at ha
  · next hone =>
    cases hvs : valuesOf name ms with
    | nil => simp [hvs] at hv
    | cons w rest =>
      obtain rfl : rest = [] := by simpa [hvs] using hone
      obtain rfl : v = w := by simpa [hvs] using hv
      simpa [hvs] using ha
  · simp at ha

theorem status_eq_none {ks : List (Text × Tree)} {f : Fields} (h : keyed ms = some ks)
    (hs : (member "status" ks).bind textField = some f.status)
    (hnull : ∀ v ∈ valuesOf "status" ms, v = .null) : f.status = none := by
  rw [member_of_keyed h] at hs
  split at hs
  · cases hvs : valuesOf "status" ms with
    | nil => simpa [hvs, textField] using hs.symm
    | cons v rest =>
      obtain rfl := hnull v (by simp [hvs])
      simpa [hvs, textField] using hs.symm
  · simp at hs

theorem succeeded?_of_reportsFailure {f : Fields} (hf : fields? (.object ms) = some f)
    (h : ReportsFailure ms) : f.succeeded? = some false := by
  obtain ⟨ks, hks, hs, hb, -⟩ := fields?_eq_some_iff.1 hf
  rcases h with ⟨ps, hps, hne⟩ | ⟨hnull, hflag⟩
  · have hread := read_of_mem_valuesOf hks hs hps
    obtain ⟨t, ht, hstatus⟩ := Option.map_eq_some_iff.1 hread
    have hne' : t ≠ "success".toList := fun heq => hne (by rw [ht, heq])
    simp only [Fields.succeeded?, ← hstatus, beq_eq_false_iff_ne.2 hne']
  · have hread := read_of_mem_valuesOf hks hb hflag
    simp only [Fields.succeeded?, status_eq_none hks hs hnull]
    exact (Option.some.inj hread).symm

theorem ofFields_of_succeeded? {f : Fields} (h : f.succeeded? = some false) :
    ofFields f = some (.failure ((f.errorMessage.or f.message).getD "Operation failed".toList)) := by
  simp [ofFields, h]

theorem read_eq_failure {raw : Text} {f : Fields} (spelled : (Tree.object ms).SpelledAs (cut raw))
    (hf : fields? (.object ms) = some f) (hs : f.succeeded? = some false) :
    read raw = .failure ((f.errorMessage.or f.message).getD "Operation failed".toList) := by
  have hreply : structured? (cut raw) = ofFields f := by
    simp [structured?, Tree.ofText?_of_spelledAs spelled, hf]
  rw [read, hreply, ofFields_of_succeeded? hs, Option.getD_some]

theorem read_eq_raw {raw : Text} (spelled : (Tree.object ms).SpelledAs (cut raw))
    (hf : fields? (.object ms) = none) : read raw = .success (some (cut raw)) := by
  have hreply : structured? (cut raw) = none := by
    simp [structured?, Tree.ofText?_of_spelledAs spelled, hf]
  rw [read, hreply, Option.getD_none]

/-! ### A refusal with a success flag of any kind -/

def plain (s : String) : List Piece := s.toList.map .char

theorem plain_spelledAs {s : String}
    (h : s.toList.all fun c => 0x20 ≤ c.toNat && c != '"' && c != '\\') :
    Token.SpelledAs (.string (plain s)) ('"' :: (s.toList ++ ['"'])) := by
  refine .string (stringAs_of_raw fun c hc => ?_)
  simpa [and_assoc] using List.all_eq_true.1 h c hc

def refusal (v : Tree) : List (List Piece × Tree) :=
  [(plain "status", .string (plain "error")), (plain "error_message", .string (plain "denied")),
    (plain "success", v)]

def refusalLine (u : Text) : Text :=
  "\x7b\"status\":\"error\",\"error_message\":\"denied\",\"success\":".toList ++ (u ++ ['\x7d'])

theorem refusal_spelledAs {v : Tree} {k : Token} {u : Text} (hv : v.tokens = [k])
    (hu : k.SpelledAs u) : (Tree.object (refusal v)).SpelledAs (refusalLine u) := by
  have hend : TokensAs [k, .closeObject] (u ++ ['\x7d']) := .token hu (.token .closeObject .nil)
  have htokens := TokensAs.token .openObject <|
    .token (plain_spelledAs (s := "status") rfl) <| .token .colon <|
    .token (plain_spelledAs (s := "error") rfl) <| .token .comma <|
    .token (plain_spelledAs (s := "error_message") rfl) <| .token .colon <|
    .token (plain_spelledAs (s := "denied") rfl) <| .token .comma <|
    .token (plain_spelledAs (s := "success") rfl) <| .token .colon hend
  simp only [Tree.SpelledAs, refusal, Tree.tokens, Tree.memberTokens_cons_cons,
    Tree.memberTokens_singleton, hv]
  exact htokens

theorem cut_refusalLine (u : Text) : cut (refusalLine u) = refusalLine u := by
  have hcut : ∀ t : Text, cut (t ++ ['\x7d']) = t ++ ['\x7d'] := by simp [cut, Text.dropEndWhile]
  unfold refusalLine
  rw [← List.append_assoc, hcut]

theorem refusal_reportsFailure (v : Tree) : ReportsFailure (refusal v) := by
  refine .inl ⟨plain "error", ?_, ?_⟩
  · simp [valuesOf, refusal, plain, textOf]
  · simp [plain, textOf]

/-- A line that holds one object which reports a failure is read as a failure if the object is
readable, and as a success with the line itself if it is not. -/
theorem read_of_reportsFailure {raw : Text} (spelled : (Tree.object ms).SpelledAs (cut raw))
    (failure : ReportsFailure ms) :
    (Readable ms → ∃ m, read raw = .failure m) ∧
      (¬ Readable ms → read raw = .success (some (cut raw))) := by
  constructor
  · intro readable
    obtain ⟨f, hf⟩ := Option.isSome_iff_exists.1 (fields?_isSome_iff.2 readable)
    exact ⟨_, read_eq_failure spelled hf (succeeded?_of_reportsFailure hf failure)⟩
  · intro unreadable
    have hnone : fields? (.object ms) = none := by
      cases hf : fields? (.object ms) with
      | none => rfl
      | some f => exact absurd (fields?_isSome_iff.1 (by simp [hf])) unreadable
    exact read_eq_raw spelled hnone

theorem read_of_reportsFailure_null_flag :
    Readable (refusal .null) ∧ ∃ m, read (refusalLine ['n', 'u', 'l', 'l']) = .failure m := by
  have spelled : (Tree.object (refusal .null)).SpelledAs (cut (refusalLine ['n', 'u', 'l', 'l'])) := by
    rw [cut_refusalLine]
    exact refusal_spelledAs (by rw [Tree.tokens]) .null
  have readable : Readable (refusal .null) := fields?_isSome_iff.1 rfl
  exact ⟨readable, (read_of_reportsFailure spelled (refusal_reportsFailure _)).1 readable⟩

/-- A refusal whose success flag is the number 0 is taken for a success. -/
theorem read_zero_flag :
    (Tree.object (refusal (.number ⟨false, ['0'], none, none⟩))).SpelledAs (cut (refusalLine ['0'])) ∧
      ReportsFailure (refusal (.number ⟨false, ['0'], none, none⟩)) ∧
      read (refusalLine ['0']) = .success (some (refusalLine ['0'])) := by
  have zero : Numeral.SpelledAs ⟨false, ['0'], none, none⟩ ['0'] :=
    @Numeral.SpelledAs.mk false ['0'] [] [] none none (by simp [Digits]) (fun _ => rfl) .none .none
  have spelled : (Tree.object (refusal (.number ⟨false, ['0'], none, none⟩))).SpelledAs
      (cut (refusalLine ['0'])) := by
    rw [cut_refusalLine]
    exact refusal_spelledAs (by rw [Tree.tokens]) (.number zero)
  refine ⟨spelled, refusal_reportsFailure _, ?_⟩
  rw [read_eq_raw spelled rfl, cut_refusalLine]

end StorageClient.Reply
