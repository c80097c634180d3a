import Mathlib.Data.List.Chain
import StorageClient.Proofs.Wire.Quoting
import StorageClient.Wire.Path

/-!
Which commands share a line. The first word tells the kinds of commands apart, and quoted content
tells itself from what stands before it. Two fields side by side without quotes can trade text over
the space between them, and that is all that can happen.
-/

namespace StorageClient

def firstWord (l : Text) : Text := l.takeWhile (· != ' ')

theorem eq_of_append_space {a b a' b' : Text} (h : a ++ ' ' :: b = a' ++ ' ' :: b') :
    a = a' ∧ b = b' ∨ (∃ x, a' = a ++ ' ' :: x ∧ b = x ++ ' ' :: b') ∨
      ∃ x, a = a' ++ ' ' :: x ∧ b' = x ++ ' ' :: b := by
  rcases List.append_eq_append_iff.1 h with ⟨m, ha, hb⟩ | ⟨m, ha, hb⟩
  · cases m with
    | nil =>
      obtain ⟨-, rfl⟩ := List.cons.inj hb
      exact .inl ⟨by simpa using ha.symm, rfl⟩
    | cons c x =>
      obtain ⟨rfl, hx⟩ := List.cons.inj hb
      exact .inr (.inl ⟨x, ha, hx⟩)
  · cases m with
    | nil =>
      obtain ⟨-, rfl⟩ := List.cons.inj hb
      exact .inl ⟨by simpa using ha, rfl⟩
    | cons c x =>
      obtain ⟨rfl, hx⟩ := List.cons.inj hb
      exact .inr (.inr ⟨x, ha, hx⟩)

namespace Escape

/-- A quote in quoted content comes right behind a backslash. -/
theorem isChain_encode (c : Char) (t : Text) :
    (c :: encode t).IsChain fun a b => b = '"' → a = '\\' := by
  induction t generalizing c with
  | nil => exact .singleton c
  | cons d t ih =>
    rw [encode_cons, encodeChar]
    split
    · exact .cons_cons (fun h => absurd h (by decide)) (.cons_cons (fun _ => rfl) (ih d))
    · next hd =>
      have hquote : d ≠ '"' := fun h => hd (.inr h)
      exact .cons_cons (fun h => absurd h hquote) (ih d)

/-- So no quote behind a space is taken for a part of the content. -/
theorem quote_encode_ne (t u x : Text) : '"' :: encode t ≠ x ++ ' ' :: '"' :: u := by
  intro h
  have hchain := isChain_encode '"' t
  rw [h] at hchain
  have hspace := (List.isChain_cons_cons.1 (List.isChain_append.1 hchain).2.1).1 rfl
  exact absurd hspace (by decide)

end Escape

namespace Command
open Escape

theorem firstWord_line (c : Command) : firstWord c.line = c.word := by
  have hword : ∀ a ∈ c.word, (a != ' ') = true := by
    rw [← List.all_eq_true]
    cases c <;> rfl
  unfold firstWord line
  rw [List.takeWhile_append_of_pos hword]
  cases c.arguments with
  | nil => exact List.append_nil c.word
  | cons a as => exact List.append_nil c.word

def kinds : List Command :=
  [login [] [], logout, listUsers, createUser [] [], deleteUser [], listDir [], createFile [] [],
    getFile [], deleteFile [], createDir [], deleteDir [], renameFile [] [], truncateFile [] [],
    setPermissions [] [], getMetadata [], getSessionInfo]

theorem getElem?_kinds (c : Command) : (kinds.map word)[c.ctorIdx]? = some c.word := by
  cases c <;> rfl

theorem nodup_kinds : (kinds.map word).Nodup := by decide +kernel

theorem ctorIdx_eq_of_word_eq {c d : Command} (h : c.word = d.word) : c.ctorIdx = d.ctorIdx := by
  have hget : (kinds.map word)[c.ctorIdx]? = (kinds.map word)[d.ctorIdx]? := by
    rw [getElem?_kinds, getElem?_kinds, h]
  have hlt := (List.getElem?_eq_some_iff.1 c.getElem?_kinds).1
  exact (List.getElem?_inj hlt nodup_kinds).1 hget

theorem of_line_eq {c d : Command} (h : c.line = d.line) : c.ctorIdx = d.ctorIdx ∧
    c.arguments.flatMap (' ' :: ·) = d.arguments.flatMap (' ' :: ·) := by
  have hword : c.word = d.word := by rw [← c.firstWord_line, h, d.firstWord_line]
  refine ⟨ctorIdx_eq_of_word_eq hword, ?_⟩
  unfold line at h
  rw [hword] at h
  exact List.append_cancel_left h

/-! ### Quoted content -/

theorem createFile_eq_of_line_eq {path content path' content' : Text}
    (h : (createFile path content).line = (createFile path' content').line) :
    createFile path content = createFile path' content' := by
  have hquoted : (path ++ ' ' :: '"' :: encode content) ++ ['"'] =
      (path' ++ ' ' :: '"' :: encode content') ++ ['"'] := by
    simpa [arguments] using (of_line_eq h).2
  rcases eq_of_append_space (List.append_cancel_right hquoted) with
    ⟨rfl, hcontent⟩ | ⟨x, -, hx⟩ | ⟨x, -, hx⟩
  · rw [encode_injective (List.cons.inj hcontent).2]
  · exact absurd hx (quote_encode_ne _ _ _)
  · exact absurd hx (quote_encode_ne _ _ _)

/-! ### Fields side by side -/

/-- The commands with two fields and no quotes. -/
def pairs : List (Text → Text → Command) :=
  [login, createUser, renameFile, truncateFile, setPermissions]

/-- The second command is the first with text moved over the space between its fields. -/
def Shifted (c d : Command) : Prop :=
  ∃ f ∈ pairs, ∃ a x b, c = f a (x ++ ' ' :: b) ∧ d = f (a ++ ' ' :: x) b

theorem line_of_mem_pairs {f : Text → Text → Command} (hf : f ∈ pairs) :
    ∃ front back, ∀ a b, (f a b).line = front ++ ((a ++ ' ' :: b) ++ back) := by
  simp only [pairs, List.mem_cons, List.not_mem_nil, or_false] at hf
  rcases hf with rfl | rfl | rfl | rfl | rfl
  · exact ⟨"login ".toList, [], fun a b => by simp [line, arguments]; rfl⟩
  · exact ⟨"create_user ".toList, " normal".toList, fun a b => by simp [line, arguments]; rfl⟩
  · exact ⟨"rename_file ".toList, [], fun a b => by simp [line, arguments]; rfl⟩
  · exact ⟨"truncate_file ".toList, [], fun a b => by simp [line, arguments]; rfl⟩
  · exact ⟨"set_permissions ".toList, [], fun a b => by simp [line, arguments]; rfl⟩

theorem Shifted.line_eq {c d : Command} (h : c.Shifted d) : c.line = d.line := by
  obtain ⟨f, hf, a, x, b, rfl, rfl⟩ := h
  obtain ⟨front, back, hline⟩ := line_of_mem_pairs hf
  rw [hline, hline]
  simp

theorem eq_or_shifted_of_line_eq {f : Text → Text → Command} (hf : f ∈ pairs) {a b a' b' : Text}
    (h : (f a b).line = (f a' b').line) :
    f a b = f a' b' ∨ (f a b).Shifted (f a' b') ∨ (f a' b').Shifted (f a b) := by
  obtain ⟨front, back, hline⟩ := line_of_mem_pairs hf
  rw [hline, hline] at h
  have hfields := List.append_cancel_right (List.append_cancel_left h)
  rcases eq_of_append_space hfields with ⟨rfl, rfl⟩ | ⟨x, rfl, rfl⟩ | ⟨x, rfl, rfl⟩
  · exact .inl rfl
  · exact .inr (.inl ⟨f, hf, a, x, b', rfl, rfl⟩)
  · exact .inr (.inr ⟨f, hf, a', x, b, rfl, rfl⟩)

/-- Two commands share a line exactly if they are the same or one is the other with text moved over
the space between two fields that are not quoted. -/
theorem line_eq_line_iff (c d : Command) :
    c.line = d.line ↔ c = d ∨ c.Shifted d ∨ d.Shifted c := by
  constructor
  · intro h
    obtain ⟨hkind, hargs⟩ := of_line_eq h
    cases c <;> cases d <;> try exact absurd hkind (of_decide_eq_false rfl)
    case login.login | createUser.createUser | renameFile.renameFile | truncateFile.truncateFile
        | setPermissions.setPermissions => exact eq_or_shifted_of_line_eq (by simp [pairs]) h
    case createFile.createFile => exact .inl (createFile_eq_of_line_eq h)
    case logout.logout | listUsers.listUsers | getSessionInfo.getSessionInfo => exact .inl rfl
    -- The others have one field, and it is all that follows the first word.
    all_goals
      refine .inl ?_
      simpa [arguments] using hargs
  · rintro (rfl | h | h)
    · rfl
    · exact h.line_eq
    · exact h.line_eq.symm

/-! ### What users type -/

/-- An answer to a question: no control characters, and no blanks at either end. -/
def Answered (t : Text) : Prop := (∀ c ∈ t, Text.isControl c = false) ∧ Text.trim t = t

instance (t : Text) : Decidable (Answered t) :=
  -- To be decided along the text, not over all characters.
  haveI : Decidable (∀ c ∈ t, Text.isControl c = false) := List.decidableBAll _ t
  inferInstanceAs (Decidable (_ ∧ _))

def AnsweredDir (dir : Text) : Prop := ∃ t, Answered t ∧ dir = Path.normalize t

def AnsweredFile (path : Text) : Prop :=
  ∃ dir name, AnsweredDir dir ∧ Answered name ∧ name ≠ [] ∧ path = Path.file dir name

def Typed : Command → Prop
  | login user password => Answered user ∧ Answered password ∧ (user ≠ [] ∨ password ≠ [])
  | createUser user password => Answered user ∧ user ≠ [] ∧ Answered password ∧ password ≠ []
  | deleteUser user => Answered user ∧ user ≠ []
  | listDir dir | createDir dir | deleteDir dir => AnsweredDir dir
  | createFile path content => AnsweredFile path ∧ '\n' ∉ content
  | getFile path | deleteFile path | getMetadata path => AnsweredFile path
  | renameFile source target => AnsweredFile source ∧ AnsweredFile target
  | truncateFile path value | setPermissions path value =>
    AnsweredFile path ∧ Answered value ∧ value ≠ []
  | logout | listUsers | getSessionInfo => True

/-- Two files of the root: the one's name ends where the other's new name begins. -/
theorem renameFile_line_collision :
    (renameFile "/a /b".toList "/c".toList).Typed ∧ (renameFile "/a".toList "/b /c".toList).Typed ∧
      renameFile "/a /b".toList "/c".toList ≠ renameFile "/a".toList "/b /c".toList ∧
      (renameFile "/a /b".toList "/c".toList).line =
        (renameFile "/a".toList "/b /c".toList).line := by
  have hroot : AnsweredDir "/".toList := ⟨"/".toList, by decide +kernel, by decide +kernel⟩
  have hfile : ∀ name ∈ ["a /b".toList, "c".toList, "a".toList, "b /c".toList],
      AnsweredFile (Path.file "/".toList name) := by
    intro name hmem
    have hnames : ∀ t ∈ ["a /b".toList, "c".toList, "a".toList, "b /c".toList],
        Answered t ∧ t ≠ [] := by decide +kernel
    obtain ⟨hname, hne⟩ := hnames name hmem
    exact ⟨"/".toList, name, hroot, hname, hne, rfl⟩
  exact ⟨⟨hfile "a /b".toList (by simp), hfile "c".toList (by simp)⟩,
    ⟨hfile "a".toList (by simp), hfile "b /c".toList (by simp)⟩,
    by decide +kernel, by decide +kernel⟩

end Command

end StorageClient
