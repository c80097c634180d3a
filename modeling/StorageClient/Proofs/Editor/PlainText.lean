import StorageClient.Editor.Session
import StorageClient.Proofs.Editor.Edits

/-!
A plain text editor: one text, one position, no lines. An edit session is measured against it by
forgetting where its lines end.
-/

namespace StorageClient

@[ext]
structure PlainText where
  text : Text
  pos : Nat
deriving DecidableEq, Repr

inductive PlainEdit where
  | keep
  | insert (c : Char)
  | erase
  | back
  | forth
  | jump (pos : Nat)
deriving DecidableEq, Repr

namespace PlainText

def apply (t : PlainText) : PlainEdit → PlainText
  | .keep => t
  | .insert c => ⟨t.text.take t.pos ++ c :: t.text.drop t.pos, t.pos + 1⟩
  | .erase => ⟨t.text.eraseIdx (t.pos - 1), t.pos - 1⟩
  | .back => ⟨t.text, t.pos - 1⟩
  | .forth => ⟨t.text, t.pos + 1⟩
  | .jump n => ⟨t.text, n⟩

theorem apply_insert_between (above l below : Text) (c : Char) {col : Nat} (h : col ≤ l.length) :
    apply ⟨above ++ l ++ below, above.length + col⟩ (.insert c) =
      ⟨above ++ (l.take col ++ c :: l.drop col) ++ below, above.length + (col + 1)⟩ := by
  simp only [apply, List.append_assoc, List.take_length_add_append, List.drop_length_add_append,
    List.take_append_of_le_length h, List.drop_append_of_le_length h, List.cons_append,
    Nat.add_assoc]

theorem apply_erase_between (above l below : Text) {col : Nat} (hpos : 0 < col)
    (h : col ≤ l.length) :
    apply ⟨above ++ l ++ below, above.length + col⟩ .erase =
      ⟨above ++ (l.take (col - 1) ++ l.drop col) ++ below, above.length + (col - 1)⟩ := by
  have hsub : above.length + col - 1 = above.length + (col - 1) := by omega
  have hdrop : l.drop col = l.drop (col - 1 + 1) := by rw [Nat.sub_add_cancel hpos]
  rw [apply, hsub, List.append_assoc, List.eraseIdx_append_of_length_le (by omega),
    Nat.add_sub_cancel_left, List.eraseIdx_append_of_lt_length (by omega), hdrop,
    ← List.eraseIdx_eq_take_drop_succ, List.append_assoc]

end PlainText

namespace Session

/-- What is left of a session when its lines are joined. -/
def plain (s : Session) : PlainText := ⟨s.buffer.flatten, s.buffer.offset s.cursor⟩

/-- The plain command of a step. One to the left or right across a line end goes nowhere in the
text. -/
def moveEdit (s : Session) : Direction → PlainEdit
  | .left => if 0 < s.cursor.col then .back else .keep
  | .right => if s.cursor.col < s.buffer.lineLength s.cursor.row then .forth else .keep
  | d =>
    match s.cursor.moved d s.buffer with
    | .ok c => .jump (s.buffer.offset c)
    | .error _ => .keep

/-- The plain command of an action while the text has the focus. Line breaks and joined lines do
not show in the text. -/
def textEdit (s : Session) : Action → PlainEdit
  | .insert c => .insert c
  | .backspace => if 0 < s.cursor.col then .erase else .keep
  | .move d => s.moveEdit d
  | .breakLine | .focusButtons | .focusEditor | .select _ | .confirm | .cancel | .resize .. => .keep

def edit (s : Session) (a : Action) : PlainEdit :=
  match s.mode with
  | .editing => s.textEdit a
  | .button _ => .keep

theorem edit_of_editing {s : Session} (hm : s.mode = .editing) (a : Action) :
    s.edit a = s.textEdit a := by rw [edit, hm]

theorem edit_of_button {s : Session} {b : Button} (hm : s.mode = .button b) (a : Action) :
    s.edit a = .keep := by rw [edit, hm]

theorem edit_eq_keep {s : Session} {a : Action} (h : s.textEdit a = .keep) : s.edit a = .keep := by
  cases hm : s.mode with
  | editing => rw [edit_of_editing hm, h]
  | button b => exact edit_of_button hm a

end Session

theorem Buffer.flatten_around (b : Buffer) (row n : Nat) :
    b.flatten = (b.lines.take row).flatten ++ ((b.lines.drop row).take n).flatten ++
      (b.lines.drop (row + n)).flatten := by
  have h : b.lines = b.lines.take row ++ (b.lines.drop row).take n ++ b.lines.drop (row + n) := by
    rw [← List.drop_drop, List.append_assoc, List.take_append_drop, List.take_append_drop]
  rw [flatten, ← List.flatten_append, ← List.flatten_append, ← h]

theorem Buffer.flatten_of_line {b : Buffer} {row : Nat} {l : Text} (h : b.lines[row]? = some l) :
    b.flatten = (b.lines.take row).flatten ++ l ++ (b.lines.drop (row + 1)).flatten := by
  obtain ⟨hr, rfl⟩ := List.getElem?_eq_some_iff.mp h
  rw [b.flatten_around row 1, List.drop_eq_getElem_cons hr, List.take_succ_cons, List.take_zero,
    List.flatten_singleton]

theorem Buffer.flatten_of_lines {b : Buffer} {row : Nat} {above l : Text}
    (ha : b.lines[row]? = some above) (h : b.lines[row + 1]? = some l) :
    b.flatten = (b.lines.take row).flatten ++ (above ++ l) ++ (b.lines.drop (row + 2)).flatten := by
  obtain ⟨hr, rfl⟩ := List.getElem?_eq_some_iff.mp ha
  obtain ⟨hr', rfl⟩ := List.getElem?_eq_some_iff.mp h
  rw [b.flatten_around row 2, List.drop_eq_getElem_cons hr, List.drop_eq_getElem_cons hr',
    List.take_succ_cons, List.take_succ_cons, List.take_zero, List.flatten_cons,
    List.flatten_singleton]

end StorageClient
