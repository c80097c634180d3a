import StorageClient.Proofs.Wire.Pairing
import StorageClient.Proofs.Wire.Structured

/-!
Other wordings of one reply. The order of members, the members of unknown names, the spelling of
strings and white space can all be changed, and the reply that is read stays the same.
-/

namespace StorageClient.Reply

open Json Json.Tree

variable {ms ns : List (List Piece × Tree)}

def known : List String := ["status", "success", "data", "error_message", "message"]

inductive Rewording : List (List Piece × Tree) → List (List Piece × Tree) → Prop
  | reorder {ms ns : List (List Piece × Tree)} (h : ms.Perm ns) : Rewording ms ns
  | respell {ms ns : List (List Piece × Tree)} (h : MembersRespell ms ns) : Rewording ms ns
  | unknown {key : List Piece} {k : Text} (v : Tree) (ms : List (List Piece × Tree))
      (spells : textOf key = some k) (hk : ∀ name ∈ known, k ≠ name.toList) :
      Rewording ms ((key, v) :: ms)
  | agree {ms ns : List (List Piece × Tree)}
      (keys : (∀ m ∈ ms, (textOf m.1).isSome) ↔ ∀ m ∈ ns, (textOf m.1).isSome)
      (values : ∀ name ∈ known, valuesOf name ms = valuesOf name ns) : Rewording ms ns
  | symm {ms ns : List (List Piece × Tree)} (h : Rewording ms ns) : Rewording ns ms
  | trans {ms ns os : List (List Piece × Tree)} (h : Rewording ms ns) (h' : Rewording ns os) :
      Rewording ms os

/-! ### Values that read alike -/

/-- The only value, null if there is none. -/
def only (vs : List Tree) : Option Tree := if vs.length ≤ 1 then some (vs.headD .null) else none

/-- A reader that takes all spellings of a value for the same. -/
def Fair {α : Type} (read : Tree → Option α) : Prop := ∀ v w : Tree, v.Respells w → read v = read w

structure Alike (ms ns : List (List Piece × Tree)) : Prop where
  keys : (∀ m ∈ ms, (textOf m.1).isSome) ↔ ∀ m ∈ ns, (textOf m.1).isSome
  values : ∀ name ∈ known, ∀ (α : Type) (read : Tree → Option α), Fair read →
    (only (valuesOf name ms)).bind read = (only (valuesOf name ns)).bind read

theorem valuesOf_cons (name : String) (key : List Piece) (v : Tree)
    (ms : List (List Piece × Tree)) : valuesOf name ((key, v) :: ms) =
      if textOf key = some name.toList then v :: valuesOf name ms else valuesOf name ms := by
  by_cases h : textOf key = some name.toList
  · simp [valuesOf, h]
  · simp [valuesOf, h]

theorem only_of_perm {vs ws : List Tree} (h : vs.Perm ws) : only vs = only ws := by
  unfold only
  rw [h.length_eq]
  split
  · next hone =>
    -- At most one value can be put in one order only.
    have heq : vs = ws := by
      match ws, hone with
      | [], _ => exact h.eq_nil
      | [w], _ => exact h.eq_singleton
    rw [heq]
  · rfl

theorem valuesOf_perm (h : ms.Perm ns) (name : String) :
    (valuesOf name ms).Perm (valuesOf name ns) :=
  (h.filter _).map _

theorem valuesOf_respell {ms ns : List (List Piece × Tree)} (h : MembersRespell ms ns)
    (name : String) : ItemsRespell (valuesOf name ms) (valuesOf name ns) := by
  match h with
  | .nil => exact .nil
  | .cons text value rest =>
    rw [valuesOf_cons, valuesOf_cons, text]
    split
    · exact .cons value (valuesOf_respell rest name)
    · exact valuesOf_respell rest name

theorem keys_respell {ms ns : List (List Piece × Tree)} (h : MembersRespell ms ns) :
    (∀ m ∈ ms, (textOf m.1).isSome) ↔ ∀ m ∈ ns, (textOf m.1).isSome := by
  match h with
  | .nil => exact Iff.rfl
  | .cons text _ rest => rw [List.forall_mem_cons, List.forall_mem_cons, text, keys_respell rest]

theorem only_respell {vs ws : List Tree} (h : ItemsRespell vs ws) {α : Type}
    {read : Tree → Option α} (fair : Fair read) : (only vs).bind read = (only ws).bind read := by
  match h with
  | .nil => rfl
  | .cons first .nil => exact fair _ _ first
  | .cons _ (.cons _ _) => simp [only]

theorem alike_of_rewording (h : Rewording ms ns) : Alike ms ns := by
  induction h with
  | reorder h =>
    refine ⟨by simp only [h.mem_iff], fun name _ α read _ => ?_⟩
    rw [only_of_perm (valuesOf_perm h name)]
  | respell h =>
    exact ⟨keys_respell h, fun name _ α read fair => only_respell (valuesOf_respell h name) fair⟩
  | @unknown key k v ms spells hk =>
    refine ⟨by simp [spells], fun name hname α read _ => ?_⟩
    have hne : textOf key ≠ some name.toList := by simpa [spells] using hk name hname
    rw [valuesOf_cons, if_neg hne]
  | agree keys values => exact ⟨keys, fun name hname α read _ => by rw [values name hname]⟩
  | symm h ih =>
    exact ⟨ih.keys.symm, fun name hname α read fair => (ih.values name hname α read fair).symm⟩
  | trans h h' ih ih' =>
    exact ⟨ih.keys.trans ih'.keys, fun name hname α read fair =>
      (ih.values name hname α read fair).trans (ih'.values name hname α read fair)⟩

/-! ### Readers -/

theorem fair_textField : Fair textField := by
  intro v w h
  cases h with
  | string text => simp only [textField, text]
  | _ => rfl

theorem fair_boolField : Fair boolField := by
  intro v w h
  cases h <;> rfl

theorem fair_ofTree (depth : Nat) : Fair (Value.ofTree depth) := fun _ _ h =>
  Value.ofTree_of_respells h depth

theorem Alike.read {α : Type} {read : Tree → Option α} (h : Alike ms ns) (fair : Fair read)
    {ks ls : List (Text × Tree)} (hks : keyed ms = some ks) (hls : keyed ns = some ls)
    {name : String} (hname : name ∈ known) :
    (member name ks).bind read = (member name ls).bind read := by
  rw [member_of_keyed hks, member_of_keyed hls]
  exact h.values name hname α read fair

theorem Alike.fields (h : Alike ms ns) {f : Fields} (hf : fields? (.object ms) = some f) :
    fields? (.object ns) = some f := by
  obtain ⟨ks, hks, hs, hb, hd, he, hm⟩ := fields?_eq_some_iff.1 hf
  obtain ⟨ls, hls⟩ := Option.isSome_iff_exists.1
    (keyed_isSome_iff.2 (h.keys.1 (keyed_isSome_iff.1 (by rw [hks]; rfl))))
  refine fields?_eq_some_iff.2 ⟨ls, hls, ?_, ?_, ?_, ?_, ?_⟩
  · exact (h.read fair_textField hks hls (by decide)).symm.trans hs
  · exact (h.read fair_boolField hks hls (by decide)).symm.trans hb
  · exact (h.read (fair_ofTree _) hks hls (by decide)).symm.trans hd
  · exact (h.read fair_textField hks hls (by decide)).symm.trans he
  · exact (h.read fair_textField hks hls (by decide)).symm.trans hm

theorem fields?_of_rewording (h : Rewording ms ns) : fields? (.object ms) = fields? (.object ns) :=
  Option.ext fun _ => ⟨(alike_of_rewording h).fields, (alike_of_rewording h.symm).fields⟩

theorem structured?_of_spelledAs {t : Text} (spelled : (Tree.object ms).SpelledAs t) :
    structured? (cut t) = (fields? (.object ms)).bind ofFields := by
  have hcut : (Tree.object ms).SpelledAs (cut t) :=
    tokensAs_dropEndWhile (fun c hc => by simpa using hc) spelled
  simp [structured?, Tree.ofText?_of_spelledAs hcut, Option.bind_eq_bind]

theorem ofFields_isSome {f : Fields} (h : f.succeeded? ≠ none) : (ofFields f).isSome := by
  obtain ⟨b, hb⟩ := Option.ne_none_iff_exists'.1 h
  cases b <;> simp [ofFields, hb]

theorem read_of_rewording (h : Rewording ms ns) {t u : Text}
    (spelled : (Tree.object ms).SpelledAs t) (spelled' : (Tree.object ns).SpelledAs u)
    (structured : structured? (cut t) ≠ none) : read u = read t := by
  have hsame : structured? (cut u) = structured? (cut t) := by
    rw [structured?_of_spelledAs spelled, structured?_of_spelledAs spelled', fields?_of_rewording h]
  obtain ⟨r, hr⟩ := Option.ne_none_iff_exists'.1 structured
  rw [read, read, hsame, hr, Option.getD_some, Option.getD_some]

/-- The reply of a readable object that says how the request went is what its known members mean.
No other wording of the object, no white space, and no line ends behind its text change it. -/
theorem read_structured {t : Text} (spelled : (Tree.object ms).SpelledAs t) (readable : Readable ms)
    (decisive : Decisive ms) :
    (∀ r, read t = r ↔ Means ms r) ∧
      ∀ ns u ends, Rewording ms ns → (Tree.object ns).SpelledAs u →
        (∀ c ∈ ends, c = '\r' ∨ c = '\n') → read (u ++ ends) = read t := by
  obtain ⟨f, hf⟩ := Option.isSome_iff_exists.1 (fields?_isSome_iff.2 readable)
  have hstructured : structured? (cut t) = ofFields f := by
    rw [structured?_of_spelledAs spelled, hf, Option.bind_some]
  obtain ⟨r, hr⟩ := Option.isSome_iff_exists.1 (ofFields_isSome (succeeded?_ne_none hf decisive))
  have hread : read t = r := by rw [read, hstructured, hr, Option.getD_some]
  refine ⟨fun r' => ?_, fun ns u ends h spelled' hends => ?_⟩
  · rw [means_iff hf decisive, hread, hr, Option.some.injEq]
  · have hcut : read (u ++ ends) = read u := by rw [read, read, cut_append hends]
    rw [hcut]
    exact read_of_rewording h spelled spelled' (by simp [hstructured, hr])

/-- A refusal that says nothing of its success in the other dialect, behind which a line ends. -/
theorem read_structured_refusal :
    Readable (refusal .null) ∧ Decisive (refusal .null) ∧
      read (refusalLine ['n', 'u', 'l', 'l'] ++ ['\r', '\n']) = .failure "denied".toList := by
  have spelled : (Tree.object (refusal .null)).SpelledAs (refusalLine ['n', 'u', 'l', 'l']) :=
    refusal_spelledAs (by rw [Tree.tokens]) .null
  have readable : Readable (refusal .null) := fields?_isSome_iff.1 rfl
  have decisive : Decisive (refusal .null) :=
    .inl ⟨.string (plain "error"), by simp [valuesOf, refusal, plain, textOf], by simp⟩
  obtain ⟨hmeans, hother⟩ := read_structured spelled readable decisive
  refine ⟨readable, decisive, ?_⟩
  rw [hother _ _ ['\r', '\n'] (.reorder (.refl _)) spelled (by simp), hmeans]
  exact (means_iff rfl decisive _).2 rfl

end StorageClient.Reply
