import StorageClient.Proofs.Json.Accepted
import StorageClient.Proofs.Json.Spelling
import StorageClient.Proofs.Wire.Rewording

/-!
Structured replies seen from one of their members. An object that can be read with null as the
value of that member can be read with any value of the right type in its place, and the reply
carries that value, whatever stands around it.
-/

namespace StorageClient.Reply

open Json

structure Slot where
  before : List (List Piece × Tree)
  key : List Piece
  after : List (List Piece × Tree)

namespace Slot

variable {s : Slot} {front back u ends : Text} {v w : Tree}

def fill (s : Slot) (v : Tree) : List (List Piece × Tree) := s.before ++ (s.key, v) :: s.after

def addedTokens (ms : List (List Piece × Tree)) : List Token :=
  ms.flatMap fun m => .comma :: .string m.1 :: .colon :: m.2.tokens

structure SpelledAs (s : Slot) (front back : Text) : Prop where
  front : TokensAs (.openObject :: (Tree.heldMembers s.before ++ [.string s.key, .colon])) front
  back : TokensAs (addedTokens s.after ++ [.closeObject]) back

theorem tokensAs_append {ks ls : List Token} {t : Text} (h : TokensAs ks t) (k : TokensAs ls u) :
    TokensAs (ks ++ ls) (t ++ u) := by
  induction h with
  | nil => exact k
  | space blank rest ih => exact .space blank ih
  | token first rest ih =>
    rw [List.cons_append, List.append_assoc]
    exact .token first ih

theorem memberTokens_cons (key : List Piece) (v : Tree) (ms : List (List Piece × Tree)) :
    Tree.memberTokens ((key, v) :: ms) =
      .string key :: .colon :: (v.tokens ++ addedTokens ms) := by
  induction ms generalizing key v with
  | nil => simp [Tree.memberTokens_singleton, addedTokens]
  | cons m ms ih =>
    obtain ⟨key', w⟩ := m
    rw [Tree.memberTokens_cons_cons, ih]
    rfl

theorem memberTokens_fill (s : Slot) (v : Tree) : Tree.memberTokens (s.fill v) =
    Tree.heldMembers s.before ++ .string s.key :: .colon :: (v.tokens ++ addedTokens s.after) := by
  unfold fill
  induction s.before with
  | nil => exact memberTokens_cons s.key v s.after
  | cons m ms ih =>
    obtain ⟨key, w⟩ := m
    have hne : ms ++ (s.key, v) :: s.after ≠ [] := by simp
    obtain ⟨m', ms', hms⟩ := List.exists_cons_of_ne_nil hne
    rw [List.cons_append, hms, Tree.memberTokens_cons_cons, ← hms, ih]
    simp [Tree.heldMembers]

/-- A value between the texts around it makes the text of an object. -/
theorem SpelledAs.fill (h : s.SpelledAs front back) (hv : v.SpelledAs u) :
    (Tree.object (s.fill v)).SpelledAs (front ++ (u ++ back)) := by
  have htokens : (Tree.object (s.fill v)).tokens =
      .openObject :: (Tree.heldMembers s.before ++ [.string s.key, .colon]) ++
        (v.tokens ++ (addedTokens s.after ++ [.closeObject])) := by
    simp [Tree.tokens, memberTokens_fill]
  rw [Tree.SpelledAs, htokens]
  exact tokensAs_append h.front (tokensAs_append hv h.back)

/-! ### The values of a filled object -/

theorem valuesOf_fill (name : String) (s : Slot) (v : Tree) : valuesOf name (s.fill v) =
    valuesOf name s.before ++
      ((if textOf s.key = some name.toList then [v] else []) ++ valuesOf name s.after) := by
  have happend : ∀ ms ns, valuesOf name (ms ++ ns) = valuesOf name ms ++ valuesOf name ns := by
    intro ms ns
    simp [valuesOf]
  rw [fill, happend, valuesOf_cons]
  split
  · rfl
  · rfl

theorem valuesOf_fill_of_ne {name : String} (h : textOf s.key ≠ some name.toList) (v w : Tree) :
    valuesOf name (s.fill v) = valuesOf name (s.fill w) := by
  rw [valuesOf_fill, valuesOf_fill, if_neg h, if_neg h]

theorem valuesOf_fill_of_eq {name : String} (h : textOf s.key = some name.toList)
    (hone : (valuesOf name (s.fill w)).length ≤ 1) (v : Tree) :
    valuesOf name (s.fill v) = [v] := by
  rw [valuesOf_fill, if_pos h] at hone ⊢
  have hlength : (valuesOf name s.before).length + ((valuesOf name s.after).length + 1) ≤ 1 := by
    simpa using hone
  have hbefore : valuesOf name s.before = [] := List.eq_nil_of_length_eq_zero (by omega)
  have hafter : valuesOf name s.after = [] := List.eq_nil_of_length_eq_zero (by omega)
  rw [hbefore, hafter]
  rfl

theorem holds_fill {name : String} {P : Tree → Prop} (h : Holds name P (s.fill w))
    (hv : textOf s.key = some name.toList → P v) : Holds name P (s.fill v) := by
  by_cases hkey : textOf s.key = some name.toList
  · rw [Holds, valuesOf_fill_of_eq hkey h.1 v]
    simpa using hv hkey
  · rwa [Holds, valuesOf_fill_of_ne hkey v w]

theorem textOf_ne_of_spells {key : List Piece} {name other : String} (h : Spells key name.toList)
    (hne : name ≠ other) : textOf key ≠ some other.toList := by
  rw [textOf_of_spells h]
  intro heq
  exact hne (String.toList_injective (Option.some.inj heq))

structure Takes (s : Slot) (v : Tree) : Prop where
  status : textOf s.key = some "status".toList → IsText v
  flag : textOf s.key = some "success".toList → IsFlag v
  data : textOf s.key = some "data".toList → IsData v
  errorMessage : textOf s.key = some "error_message".toList → IsText v
  message : textOf s.key = some "message".toList → IsText v

theorem readable_fill (h : Readable (s.fill w)) (hv : s.Takes v) : Readable (s.fill v) := by
  have hkeys : ∀ x : Tree,
      (s.fill x).map (·.1) = s.before.map (·.1) ++ s.key :: s.after.map (·.1) := by
    intro x
    simp [fill]
  have hall : ∀ key ∈ (s.fill v).map (·.1), (textOf key).isSome := by
    intro key hkey
    rw [hkeys v, ← hkeys w] at hkey
    obtain ⟨m, hm, rfl⟩ := List.mem_map.1 hkey
    exact h.keys m hm
  exact {
    keys := fun m hm => hall m.1 (List.mem_map_of_mem hm)
    status := holds_fill h.status hv.status
    flag := holds_fill h.flag hv.flag
    data := holds_fill h.data hv.data
    errorMessage := holds_fill h.errorMessage hv.errorMessage
    message := holds_fill h.message hv.message }

theorem takes_data (hkey : Spells s.key "data".toList) (h : IsData v) : s.Takes v := by
  have hne : ∀ name : String, "data" ≠ name → textOf s.key ≠ some name.toList :=
    fun _ => textOf_ne_of_spells hkey
  exact {
    status := fun heq => absurd heq (hne _ (by decide))
    flag := fun heq => absurd heq (hne _ (by decide))
    data := fun _ => h
    errorMessage := fun heq => absurd heq (hne _ (by decide))
    message := fun heq => absurd heq (hne _ (by decide)) }

theorem takes_text (hflag : textOf s.key ≠ some "success".toList)
    (hdata : textOf s.key ≠ some "data".toList) (h : IsText v) : s.Takes v :=
  ⟨fun _ => h, fun heq => absurd heq hflag, fun heq => absurd heq hdata, fun _ => h, fun _ => h⟩

theorem reportsSuccess_fill (hstatus : textOf s.key ≠ some "status".toList)
    (hflag : textOf s.key ≠ some "success".toList) (h : ReportsSuccess (s.fill w)) :
    ReportsSuccess (s.fill v) := by
  unfold ReportsSuccess at h ⊢
  rwa [valuesOf_fill_of_ne hstatus v w, valuesOf_fill_of_ne hflag v w]

theorem reportsFailure_fill (hstatus : textOf s.key ≠ some "status".toList)
    (hflag : textOf s.key ≠ some "success".toList) (h : ReportsFailure (s.fill w)) :
    ReportsFailure (s.fill v) := by
  unfold ReportsFailure at h ⊢
  rwa [valuesOf_fill_of_ne hstatus v w, valuesOf_fill_of_ne hflag v w]

end Slot

/-! ### Replies that succeed and replies that fail -/

variable {ms : List (List Piece × Tree)} {t ends : Text}

theorem read_eq_of_ofFields (spelled : (Tree.object ms).SpelledAs t)
    (hends : ∀ c ∈ ends, c = '\r' ∨ c = '\n') {f : Fields} (hf : fields? (.object ms) = some f)
    {r : Reply} (hr : ofFields f = some r) : read (t ++ ends) = r := by
  have hstructured : structured? (cut t) = some r := by
    rw [structured?_of_spelledAs spelled, hf, Option.bind_some, hr]
  rw [read, cut_append hends, hstructured, Option.getD_some]

theorem read_success (spelled : (Tree.object ms).SpelledAs t) (readable : Readable ms)
    (success : ReportsSuccess ms) (hends : ∀ c ∈ ends, c = '\r' ∨ c = '\n') {d : Option Text}
    (carries : Carries ms d) : read (t ++ ends) = .success d := by
  obtain ⟨f, hf⟩ := Option.isSome_iff_exists.1 (fields?_isSome_iff.2 readable)
  have hsucceeded : f.succeeded? = some true := (reportsSuccess_iff hf).1 success
  refine read_eq_of_ofFields spelled hends hf ?_
  simp [ofFields, hsucceeded, dataText_of_carries hf carries]

theorem read_failure (spelled : (Tree.object ms).SpelledAs t) (readable : Readable ms)
    (failure : ReportsFailure ms) (hends : ∀ c ∈ ends, c = '\r' ∨ c = '\n') {m : Text}
    (explains : Explains ms m) : read (t ++ ends) = .failure m := by
  obtain ⟨f, hf⟩ := Option.isSome_iff_exists.1 (fields?_isSome_iff.2 readable)
  have hsucceeded : f.succeeded? = some false := succeeded?_of_reportsFailure hf failure
  refine read_eq_of_ofFields spelled hends hf ?_
  rw [ofFields_of_succeeded? hsucceeded, (explains_iff hf).1 explains]

namespace Slot

variable {s : Slot} {front back u : Text} {v : Tree}

theorem read_data (hkey : Spells s.key "data".toList) (around : s.SpelledAs front back)
    (spelled : v.SpelledAs u) (hv : IsData v) (readable : Readable (s.fill .null))
    (success : ReportsSuccess (s.fill .null)) (hends : ∀ c ∈ ends, c = '\r' ∨ c = '\n')
    {d : Option Text} (carries : ∀ ms, v ∈ valuesOf "data" ms → Carries ms d) :
    read (front ++ (u ++ back) ++ ends) = .success d := by
  have hstatus : textOf s.key ≠ some "status".toList := textOf_ne_of_spells hkey (by decide)
  have hflag : textOf s.key ≠ some "success".toList := textOf_ne_of_spells hkey (by decide)
  have hvalue : valuesOf "data" (s.fill v) = [v] :=
    valuesOf_fill_of_eq (textOf_of_spells hkey) readable.data.1 v
  have hcarries : Carries (s.fill v) d := carries _ (by simp [hvalue])
  exact read_success (around.fill spelled) (readable_fill readable (takes_data hkey hv))
    (reportsSuccess_fill hstatus hflag success) hends hcarries

theorem read_message {name : String} (hkey : Spells s.key name.toList) (hstatus : name ≠ "status")
    (hflag : name ≠ "success") (hdata : name ≠ "data") (around : s.SpelledAs front back)
    (spelled : v.SpelledAs u) (hv : IsText v) (readable : Readable (s.fill .null))
    (failure : ReportsFailure (s.fill .null)) (hends : ∀ c ∈ ends, c = '\r' ∨ c = '\n')
    {m : Text} (explains : Explains (s.fill v) m) :
    read (front ++ (u ++ back) ++ ends) = .failure m := by
  have hstatus' := textOf_ne_of_spells hkey hstatus
  have hflag' := textOf_ne_of_spells hkey hflag
  have hdata' := textOf_ne_of_spells hkey hdata
  exact read_failure (around.fill spelled) (readable_fill readable (takes_text hflag' hdata' hv))
    (reportsFailure_fill hstatus' hflag' failure) hends explains

end Slot

/-! ### A success whose data are left open -/

theorem spells_plain (name : String) : Spells (plain name) name.toList := by
  unfold plain
  induction name.toList with
  | nil => exact .nil
  | cons c t ih => exact .char c ih

def succeeding : Slot := ⟨[(plain "status", .string (plain "success"))], plain "data", []⟩

theorem succeeding_spelledAs :
    succeeding.SpelledAs "\x7b\"status\":\"success\",\"data\":".toList "\x7d".toList :=
  ⟨.token .openObject <| .token (plain_spelledAs (s := "status") rfl) <| .token .colon <|
    .token (plain_spelledAs (s := "success") rfl) <| .token .comma <|
    .token (plain_spelledAs (s := "data") rfl) <| .token .colon .nil, .token .closeObject .nil⟩

theorem readable_succeeding : Readable (succeeding.fill .null) := fields?_isSome_iff.1 rfl

theorem success_succeeding : ReportsSuccess (succeeding.fill .null) :=
  .inl ⟨plain "success", by simp [succeeding, Slot.fill, valuesOf, plain, textOf], rfl⟩

end StorageClient.Reply
