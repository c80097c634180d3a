import StorageClient.Proofs.Json.Respelling
import StorageClient.Proofs.Wire.Failure

/-!
Structured replies that can be read and that say how the request went. Their known members alone
decide what is read, and the reply stays the same however else its text is changed.
-/

namespace StorageClient.Reply

open Json

variable {ms ns : List (List Piece × Tree)}

/-! ### What a reply says -/

/-- Either dialect says how the request went. -/
def Decisive (ms : List (List Piece × Tree)) : Prop :=
  (∃ v ∈ valuesOf "status" ms, v ≠ .null) ∨ ∃ v ∈ valuesOf "success" ms, v ≠ .null

/-- The status is `success`, or there is none and the success flag is true. -/
def ReportsSuccess (ms : List (List Piece × Tree)) : Prop :=
  (∃ ps, .string ps ∈ valuesOf "status" ms ∧ textOf ps = some "success".toList) ∨
    (∀ v ∈ valuesOf "status" ms, v = .null) ∧ .bool true ∈ valuesOf "success" ms

/-- What comes with a success: nothing, a text as it is, or other data in their compact spelling. -/
inductive Carries (ms : List (List Piece × Tree)) : Option Text → Prop
  | nothing (absent : ∀ v ∈ valuesOf "data" ms, v = .null) : Carries ms none
  | text {ps : List Piece} {s : Text} (given : .string ps ∈ valuesOf "data" ms)
      (spells : textOf ps = some s) : Carries ms (some s)
  | written {v : Tree} {w : Value} (given : v ∈ valuesOf "data" ms) (hnull : v ≠ .null)
      (htext : ∀ ps, v ≠ .string ps) (value : Value.ofTree maxDataDepth v = some w) :
      Carries ms (some w.write)

/-- Why a request failed. The error message goes before the message. -/
inductive Explains (ms : List (List Piece × Tree)) : Text → Prop
  | errorMessage {ps : List Piece} {s : Text} (given : .string ps ∈ valuesOf "error_message" ms)
      (spells : textOf ps = some s) : Explains ms s
  | message {ps : List Piece} {s : Text} (absent : ∀ v ∈ valuesOf "error_message" ms, v = .null)
      (given : .string ps ∈ valuesOf "message" ms) (spells : textOf ps = some s) : Explains ms s
  | neither (absent : ∀ v ∈ valuesOf "error_message" ms, v = .null)
      (absent' : ∀ v ∈ valuesOf "message" ms, v = .null) : Explains ms "Operation failed".toList

def Means (ms : List (List Piece × Tree)) : Reply → Prop
  | .success d => ReportsSuccess ms ∧ Carries ms d
  | .failure m => ¬ ReportsSuccess ms ∧ Explains ms m

/-! ### Members that have been read -/

theorem valuesOf_of_read {ks : List (Text × Tree)} (h : keyed ms = some ks) {name : String}
    {α : Type} {read : Tree → Option α} {a : α} (ha : (member name ks).bind read = some a) :
    valuesOf name ms = [] ∧ read .null = some a ∨
      ∃ v, valuesOf name ms = [v] ∧ read v = some a := by
  rw [member_of_keyed h] at ha
  split at ha
  · next hone =>
    cases hvs : valuesOf name ms with
    | nil => exact .inl ⟨rfl, by simpa [hvs] using ha⟩
    | cons v rest =>
      obtain rfl : rest = [] := by simpa [hvs] using hone
      exact .inr ⟨v, rfl, by simpa [hvs] using ha⟩
  · simp at ha

theorem text_of_read {ks : List (Text × Tree)} (h : keyed ms = some ks) {name : String}
    {o : Option Text} (ho : (member name ks).bind textField = some o) :
    (∀ s, o = some s ↔ ∃ ps, .string ps ∈ valuesOf name ms ∧ textOf ps = some s) ∧
      (o = none ↔ ∀ v ∈ valuesOf name ms, v = .null) := by
  rcases valuesOf_of_read h ho with ⟨hnil, ho⟩ | ⟨v, hv, ho⟩
  · obtain rfl : none = o := Option.some.inj ho
    simp [hnil]
  · rw [hv]
    cases v with
    | null =>
      obtain rfl : none = o := Option.some.inj ho
      simp
    | string ps =>
      obtain ⟨s, hs, rfl⟩ := Option.map_eq_some_iff.1 ho
      simp [hs]
    | _ => simp [textField] at ho

theorem flag_of_read {ks : List (Text × Tree)} (h : keyed ms = some ks) {name : String}
    {o : Option Bool} (ho : (member name ks).bind boolField = some o) :
    (∀ b, o = some b ↔ .bool b ∈ valuesOf name ms) ∧
      (o = none ↔ ∀ v ∈ valuesOf name ms, v = .null) := by
  rcases valuesOf_of_read h ho with ⟨hnil, ho⟩ | ⟨v, hv, ho⟩
  · obtain rfl : none = o := Option.some.inj ho
    simp [hnil]
  · rw [hv]
    cases v with
    | null =>
      obtain rfl : none = o := Option.some.inj ho
      simp
    | bool b =>
      obtain rfl : some b = o := Option.some.inj ho
      simp [eq_comm]
    | _ => simp [boolField] at ho

theorem value_of_numeral {n : Numeral} {w : Value} (h : n.value = some w) :
    dataText w = some w.write := by
  unfold Numeral.value at h
  dsimp only at h
  split at h
  · obtain rfl := Option.some.inj h
    rfl
  · split at h
    · obtain rfl := Option.some.inj h
      rfl
    · obtain ⟨x, -, rfl⟩ := Option.map_eq_some_iff.1 h
      rfl

theorem dataText_of_ofTree {v : Tree} {w : Value} {depth : Nat} (h : Value.ofTree depth v = some w)
    (hnull : v ≠ .null) (htext : ∀ ps, v ≠ .string ps) : dataText w = some w.write := by
  cases v with
  | null => exact absurd rfl hnull
  | string ps => exact absurd rfl (htext ps)
  | bool b =>
    obtain rfl := Option.some.inj h
    rfl
  | number n => exact value_of_numeral h
  | array vs =>
    rw [Value.ofTree] at h
    split at h
    · cases h
    · obtain ⟨ws, -, rfl⟩ := Option.map_eq_some_iff.1 h
      rfl
  | object ms =>
    rw [Value.ofTree] at h
    split at h
    · cases h
    · obtain ⟨ws, -, rfl⟩ := Option.map_eq_some_iff.1 h
      rfl

/-! ### The reply of an object -/

theorem reportsSuccess_iff {f : Fields} (hf : fields? (.object ms) = some f) :
    ReportsSuccess ms ↔ f.succeeded? = some true := by
  obtain ⟨ks, hks, hs, hb, -⟩ := fields?_eq_some_iff.1 hf
  obtain ⟨hstatus, hnone⟩ := text_of_read hks hs
  obtain ⟨hflag, -⟩ := flag_of_read hks hb
  unfold ReportsSuccess
  rw [← hstatus, ← hnone, ← hflag, Fields.succeeded?]
  cases f.status with
  | none => simp
  | some s => simp

theorem succeeded?_ne_none {f : Fields} (hf : fields? (.object ms) = some f) (h : Decisive ms) :
    f.succeeded? ≠ none := by
  obtain ⟨ks, hks, hs, hb, -⟩ := fields?_eq_some_iff.1 hf
  intro hnone
  cases hstatus : f.status with
  | some s => simp [Fields.succeeded?, hstatus] at hnone
  | none =>
    have hflag : f.success = none := by simpa [Fields.succeeded?, hstatus] using hnone
    rcases h with ⟨v, hv, hne⟩ | ⟨v, hv, hne⟩
    · exact hne ((text_of_read hks hs).2.1 hstatus v hv)
    · exact hne ((flag_of_read hks hb).2.1 hflag v hv)

theorem dataText_of_carries {f : Fields} (hf : fields? (.object ms) = some f) {d : Option Text}
    (h : Carries ms d) : d = dataText f.data := by
  obtain ⟨ks, hks, -, -, hd, -⟩ := fields?_eq_some_iff.1 hf
  cases h with
  | nothing absent =>
    have hdata : Value.null = f.data := by
      rcases valuesOf_of_read hks hd with ⟨-, hdata⟩ | ⟨v, hv, hdata⟩
      · exact Option.some.inj hdata
      · obtain rfl : v = .null := absent v (by simp [hv])
        exact Option.some.inj hdata
    rw [← hdata]
    rfl
  | text given spells =>
    have hread := read_of_mem_valuesOf hks hd given
    rw [Value.ofTree, spells] at hread
    rw [← Option.some.inj hread]
    rfl
  | written given hnull htext value =>
    have hread := read_of_mem_valuesOf hks hd given
    rw [← Option.some.inj (value.symm.trans hread)]
    exact (dataText_of_ofTree value hnull htext).symm

theorem carries_dataText {f : Fields} (hf : fields? (.object ms) = some f) :
    Carries ms (dataText f.data) := by
  obtain ⟨ks, hks, -, -, hd, -⟩ := fields?_eq_some_iff.1 hf
  rcases valuesOf_of_read hks hd with ⟨hnil, hdata⟩ | ⟨v, hv, hdata⟩
  · rw [← Option.some.inj hdata]
    exact .nothing (by simp [hnil])
  · -- Null carries nothing and a string itself; all else is written.
    by_cases hnull : v = .null
    · subst hnull
      rw [← Option.some.inj hdata]
      exact .nothing (by simp [hv])
    · by_cases htext : ∃ ps, v = .string ps
      · obtain ⟨ps, rfl⟩ := htext
        obtain ⟨s, hs, hdata⟩ := Option.map_eq_some_iff.1 hdata
        rw [← hdata]
        exact .text (by simp [hv]) hs
      · have htext' : ∀ ps, v ≠ .string ps := fun ps heq => htext ⟨ps, heq⟩
        rw [dataText_of_ofTree hdata hnull htext']
        exact .written (by simp [hv]) hnull htext' hdata

theorem carries_iff {f : Fields} (hf : fields? (.object ms) = some f) {d : Option Text} :
    Carries ms d ↔ d = dataText f.data :=
  ⟨dataText_of_carries hf, fun h => h ▸ carries_dataText hf⟩

theorem explains_iff {f : Fields} (hf : fields? (.object ms) = some f) {m : Text} :
    Explains ms m ↔ m = (f.errorMessage.or f.message).getD "Operation failed".toList := by
  obtain ⟨ks, hks, -, -, -, he, hm⟩ := fields?_eq_some_iff.1 hf
  obtain ⟨herror, hnoError⟩ := text_of_read hks he
  obtain ⟨hmessage, hnoMessage⟩ := text_of_read hks hm
  constructor
  · intro h
    cases h with
    | errorMessage given spells => simp [(herror m).2 ⟨_, given, spells⟩]
    | message absent given spells => simp [hnoError.2 absent, (hmessage m).2 ⟨_, given, spells⟩]
    | neither absent absent' => simp [hnoError.2 absent, hnoMessage.2 absent']
  · rintro rfl
    cases hcase : f.errorMessage with
    | some s =>
      obtain ⟨ps, given, spells⟩ := (herror s).1 hcase
      exact .errorMessage given spells
    | none =>
      cases hcase' : f.message with
      | some s =>
        obtain ⟨ps, given, spells⟩ := (hmessage s).1 hcase'
        exact .message (hnoError.1 hcase) given spells
      | none => exact .neither (hnoError.1 hcase) (hnoMessage.1 hcase')

theorem means_iff {f : Fields} (hf : fields? (.object ms) = some f) (h : Decisive ms) (r : Reply) :
    Means ms r ↔ ofFields f = some r := by
  have hdecided := succeeded?_ne_none hf h
  have hsuccess := reportsSuccess_iff hf
  cases hs : f.succeeded? with
  | none => exact absurd hs hdecided
  | some b =>
    cases r with
    | success d =>
      rw [Means, hsuccess, carries_iff hf, hs]
      cases b <;> simp [ofFields, hs, eq_comm]
    | failure m =>
      rw [Means, hsuccess, explains_iff hf, hs]
      cases b <;> simp [ofFields, hs, eq_comm]

end StorageClient.Reply
