import StorageClient.Proofs.Text.Trimming
import StorageClient.Wire.Command
import StorageClient.Wire.Path

/-!
What texts on their way to a command's line are made of: trimming, paths, quoting and the line
itself bring in no newline.
-/

namespace StorageClient

theorem Text.mem_of_mem_trim {t : Text} {c : Char} (h : c ∈ trim t) : c ∈ t :=
  (List.dropWhile_sublist isBlank).subset (mem_of_mem_dropEndWhile h)

namespace Path

theorem mem_of_mem_squeeze {after : Bool} {t : Text} {c : Char} (h : c ∈ squeeze after t) :
    c ∈ t := by
  induction t generalizing after with
  | nil => exact h
  | cons d t ih =>
    rw [squeeze] at h
    split at h
    · exact List.mem_cons_of_mem d (ih h)
    · rcases List.mem_cons.1 h with rfl | h
      · exact List.mem_cons_self
      · exact List.mem_cons_of_mem d (ih h)

theorem mem_of_mem_normalize {t : Text} {c : Char} (h : c ∈ normalize t) : c = '/' ∨ c ∈ t := by
  unfold normalize at h
  split at h
  · exact .inl (by simpa using h)
  · next u hu =>
    rcases List.mem_cons.1 h with rfl | h
    · exact .inl rfl
    · refine .inr (Text.mem_of_mem_trim ?_)
      rw [hu]
      exact List.mem_cons_of_mem '/' (mem_of_mem_squeeze h)
  · rcases List.mem_cons.1 h with rfl | h
    · exact .inl rfl
    · exact .inr (Text.mem_of_mem_trim (mem_of_mem_squeeze h))

theorem mem_of_mem_file {dir name : Text} {c : Char} (h : c ∈ file dir name) :
    c = '/' ∨ c ∈ dir ∨ c ∈ name := by
  have hdir : c ∈ normalize dir → c = '/' ∨ c ∈ dir ∨ c ∈ name := fun h =>
    (mem_of_mem_normalize h).imp_right .inl
  unfold file at h
  dsimp only at h
  split at h
  · rcases List.mem_append.1 h with h | h
    · exact hdir h
    · exact .inr (.inr h)
  · rcases List.mem_append.1 h with h | h
    · exact hdir h
    · rcases List.mem_cons.1 h with rfl | h
      · exact .inl rfl
      · exact .inr (.inr h)

theorem newline_not_mem_normalize {t : Text} (h : '\n' ∉ t) : '\n' ∉ normalize t :=
  fun hmem => (mem_of_mem_normalize hmem).elim (by decide) h

theorem newline_not_mem_file {dir name : Text} (hd : '\n' ∉ dir) (hn : '\n' ∉ name) :
    '\n' ∉ file dir name :=
  fun hmem => (mem_of_mem_file hmem).elim (by decide) fun h => h.elim hd hn

end Path

namespace Escape

theorem mem_of_mem_replace {c d : Char} {new t : Text} (h : d ∈ replace c new t) :
    d ∈ new ∨ d ∈ t := by
  obtain ⟨e, he, hd⟩ := List.mem_flatMap.1 h
  split at hd
  · exact .inl hd
  · obtain rfl := List.mem_singleton.1 hd
    exact .inr he

theorem newline_not_mem_encode {t : Text} (h : '\n' ∉ t) : '\n' ∉ encode t := by
  intro hmem
  rcases mem_of_mem_replace hmem with hnew | hmem
  · exact absurd hnew (by decide)
  · rcases mem_of_mem_replace hmem with hnew | hmem
    · exact absurd hnew (by decide)
    · exact h hmem

end Escape

namespace Command

theorem newline_not_mem_word (c : Command) : '\n' ∉ c.word := by
  cases c <;> (dsimp only [word]; decide)

theorem newline_not_mem_line_iff (c : Command) :
    '\n' ∉ c.line ↔ ∀ a ∈ c.arguments, '\n' ∉ a := by
  have hspace : '\n' ≠ ' ' := by decide
  simp [line, newline_not_mem_word, hspace]

def OneLine (c : Command) : Prop := '\n' ∉ c.line

theorem OneLine.of_arguments {c : Command} (h : ∀ a ∈ c.arguments, '\n' ∉ a) : c.OneLine :=
  c.newline_not_mem_line_iff.2 h

end Command

end StorageClient
