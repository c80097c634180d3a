import Mathlib.Data.List.Forall2
import StorageClient.Proofs.Program.Asking

/-!
What a hidden question gives away. It shows a star for each character typed, so two users who type
other characters but the same number of them see the same, and are through at the same key.
-/

namespace StorageClient

/-- The same event, or a key that types a character in place of another one. No question hears a key
that comes up, so either both keys come up or neither does. -/
inductive Event.SameMask : Event → Event → Prop where
  | same (e : Event) : SameMask e e
  | typed {k k' : Key} {c c' : Char} (hk : k.typed? = some c) (hk' : k'.typed? = some c')
      (hkind : k.kind = .release ↔ k'.kind = .release) : SameMask (.key k) (.key k')

structure Prompt.SameMask (p p' : Prompt) : Prop where
  hidden : p.hidden = true
  hidden' : p'.hidden = true
  length_eq : p'.value.length = p.value.length

/-- What can be seen of a question that has been asked: all but the answer. -/
def Asked.visible (a : Asked) : Asked := { a with outcome := a.outcome.map fun _ => [] }

theorem Asked.of_visible_eq {a a' : Asked} (h : a'.visible = a.visible) :
    a'.frames = a.frames ∧ a'.heard = a.heard ∧
      ∀ err, a'.outcome = .error err ↔ a.outcome = .error err := by
  simp only [visible, Asked.mk.injEq] at h
  obtain ⟨hframes, houtcome, hheard, -, -⟩ := h
  refine ⟨hframes, hheard, fun err => ?_⟩
  cases hout : a.outcome <;> cases hout' : a'.outcome <;> simp_all [Except.map]

/-- What can be seen of a longer question, from what can be seen of the rest of it. -/
theorem Asked.map_visible_congr {x x' : Except Fault Asked} {g : Asked → Asked}
    (h : x'.map visible = x.map visible) (hg : ∀ a, (g a).visible = g a.visible) :
    (do return g (← x')).map visible = (do return g (← x)).map visible := by
  have hmap (x : Except Fault Asked) :
      (do return g (← x)).map visible = (x.map visible).map g := by
    cases x with
    | error fault => rfl
    | ok a => exact congrArg Except.ok (hg a)
  rw [hmap, hmap, h]

namespace Event.SameMask

variable {e e' : Event}

theorem isUsed_eq (h : e.SameMask e') : e'.isUsed = e.isUsed := by
  cases h with
  | same => rfl
  | @typed k k' c c' hk hk' hkind =>
    by_cases hrelease : k.kind = .release
    · simp only [isUsed, hrelease, hkind.mp hrelease]
    · simp only [isUsed, bne_iff_ne.mpr hrelease, bne_iff_ne.mpr (mt hkind.mpr hrelease)]

theorem sizeAfter_eq (h : e.SameMask e') (size : Nat × Nat) : sizeAfter size e' = sizeAfter size e := by
  cases h <;> rfl

end Event.SameMask

namespace Prompt

variable {p p' : Prompt} {k : Key} {e e' : Event}

theorem handle_of_typed {c : Char} (h : k.typed? = some c) :
    p.handle k = .ok { p with value := p.value ++ [c] } := by
  simp only [handle, Key.code_of_typed? h, h]

theorem SameMask.handle (h : SameMask p p') (k : Key) :
    (∃ t t', p.handle k = .error t ∧ p'.handle k = .error t') ∨
      ∃ q q', p.handle k = .ok q ∧ p'.handle k = .ok q' ∧ SameMask q q' := by
  obtain ⟨hhidden, hhidden', hlength⟩ := h
  unfold Prompt.handle
  split
  · exact .inl ⟨_, _, rfl, rfl⟩
  · exact .inl ⟨_, _, rfl, rfl⟩
  · exact .inr ⟨_, _, rfl, rfl, hhidden, hhidden', by simp [hlength]⟩
  · split
    · exact .inr ⟨_, _, rfl, rfl, hhidden, hhidden', by simp [hlength]⟩
    · exact .inr ⟨_, _, rfl, rfl, hhidden, hhidden', hlength⟩
  · exact .inr ⟨_, _, rfl, rfl, hhidden, hhidden', hlength⟩

theorem SameMask.echo_eq (h : SameMask p p') : p'.echo = p.echo := by
  rw [echo, echo, if_pos h.hidden, if_pos h.hidden', List.map_const', List.map_const', h.length_eq]

theorem SameMask.frameOn_eq (h : SameMask p p') (title : Text) (size : Nat × Nat) :
    p'.frameOn title size = p.frameOn title size := by
  simp only [frameOn, Phase.draw.prompt, cursor, draw, h.echo_eq]

/-- An event answers both or neither, and after one that does not the masks are the same still. -/
theorem SameMask.event (h : SameMask p p') (he : e.SameMask e') :
    (∃ t t', p.answer? e = some t ∧ p'.answer? e' = some t') ∨
      p.answer? e = none ∧ p'.answer? e' = none ∧ SameMask (p.after e) (p'.after e') := by
  cases he with
  | same e =>
    cases e with
    | key k =>
      unfold answer? after
      dsimp only
      rcases h.handle k with ⟨t, t', ht, ht'⟩ | ⟨q, q', hq, hq', hmask⟩
      · rw [ht, ht']
        exact .inl ⟨t, t', rfl, rfl⟩
      · rw [hq, hq']
        exact .inr ⟨rfl, rfl, hmask⟩
    | _ => exact .inr ⟨rfl, rfl, h⟩
  | typed hk hk' hkind =>
    unfold answer? after
    dsimp only
    rw [handle_of_typed hk, handle_of_typed hk']
    exact .inr ⟨rfl, rfl, h.hidden, h.hidden', by simp [h.length_eq]⟩

/-- Whatever is typed, what can be seen of a hidden question is the same. -/
theorem SameMask.ask (h : SameMask p p') {es es' : List Event}
    (hes : List.Forall₂ Event.SameMask es es') (title : Text) (size : Nat × Nat)
    (framesLeft : Option Nat) :
    (p'.ask title size framesLeft es').map Asked.visible =
      (p.ask title size framesLeft es).map Asked.visible := by
  induction hes generalizing p p' size framesLeft with
  | nil =>
    rw [Prompt.ask, Prompt.ask, h.frameOn_eq]
  | @cons e e' es es' he hes ih =>
    rw [Prompt.ask, Prompt.ask, he.isUsed_eq, he.sizeAfter_eq, h.frameOn_eq]
    split
    · split
      · rfl
      · cases p.frameOn title size with
        | error fault => rfl
        | ok f =>
          rcases h.event he with ⟨t, t', ht, ht'⟩ | ⟨hnone, hnone', hafter⟩
          · rw [ht, ht']
            rfl
          · rw [hnone, hnone']
            exact Asked.map_visible_congr (ih hafter _ _) fun _ => rfl
    · exact Asked.map_visible_congr (ih h _ _) fun _ => rfl

/-- A hidden question gives away how many characters have been typed, and nothing else. Whatever
they are, its frames and cursors are the same, and the same event answers it. This is the loop of
every run that asks for a password. -/
theorem ask_masked {m : Type → Type} [Monad m] [LawfulMonad m] (svc : Service m) (title : Text)
    {size : Nat × Nat} (hsize : IsSize size) (framesLeft : Option Nat) {es es' : List Event}
    (hes : List.Forall₂ Event.SameMask es es') (hsizes : ∀ w h, .resize w h ∈ es → IsSize (w, h)) :
    (∃ a a', Prompt.ask title size framesLeft { hidden := true } es = .ok a ∧
      Prompt.ask title size framesLeft { hidden := true } es' = .ok a' ∧
        a'.frames = a.frames ∧ a'.heard = a.heard ∧
          ∀ err, a'.outcome = .error err ↔ a.outcome = .error err) ∧
      (∀ user es, runFrom svc size framesLeft (.password user { hidden := true }) es =
        (do
          let a ← Prompt.ask "Password:".toList size framesLeft { hidden := true } es
          a.resume svc es fun _ t => Phase.tryLogin svc user t)) ∧
        ∀ user entry q next es,
          runFrom svc size framesLeft (.form user entry q { hidden := true } next) es =
            (do
              let a ← Prompt.ask q.title size framesLeft { hidden := true } es
              a.resume svc es fun size t => do
                return some (← Phase.answer svc size user entry q next t)) := by
  refine ⟨?_, fun user es => runFrom_password svc size framesLeft user _ es,
    fun user entry q next es => runFrom_form svc size framesLeft user entry q _ next es⟩
  have hmask : SameMask { hidden := true } { hidden := true } := ⟨rfl, rfl, rfl⟩
  obtain ⟨a, ha⟩ := Prompt.ask_returns title hsize framesLeft { hidden := true } hsizes
  have hvisible := hmask.ask hes title size framesLeft
  rw [ha] at hvisible
  cases ha' : Prompt.ask title size framesLeft { hidden := true } es' with
  | error fault =>
    rw [ha'] at hvisible
    cases hvisible
  | ok a' =>
    rw [ha'] at hvisible
    exact ⟨a, a', ha, rfl, Asked.of_visible_eq (Except.ok.inj hvisible)⟩

/-- A narrow character, a wide one and one of no width; a key held with another one, a new size and
the end of the line are the same for both. -/
theorem ask_masked_narrow_wide :
    ∃ a a', Prompt.ask "Password:".toList (80, 24) none { hidden := true }
        [.key { code := .char 'a' }, .key { code := .char 'B', mods := { shift := true } },
          .key { code := .char 'c', mods := { ctrl := true } }, .resize 7 3,
          .key { code := .char 'd' }, .key { code := .backspace }, .key { code := .enter }] = .ok a ∧
      Prompt.ask "Password:".toList (80, 24) none { hidden := true }
        [.key { code := .char '宽' }, .key { code := .char '\u0301' },
          .key { code := .char 'c', mods := { ctrl := true } }, .resize 7 3,
          .key { code := .char ' ' }, .key { code := .backspace }, .key { code := .enter }] = .ok a' ∧
      a'.frames = a.frames ∧ a'.heard = a.heard ∧
        ∀ err, a'.outcome = .error err ↔ a.outcome = .error err := by
  refine (ask_masked obliging _ ⟨by decide, by decide⟩ none ?_ fun w h hmem => ?_).1
  · exact .cons (.typed rfl rfl Iff.rfl) <| .cons (.typed rfl rfl Iff.rfl) <|
      .cons (.same _) <| .cons (.same _) <| .cons (.typed rfl rfl Iff.rfl) <|
      .cons (.same _) <| .cons (.same _) .nil
  · obtain ⟨rfl, rfl⟩ : w = 7 ∧ h = 3 := by simpa using hmem
    exact ⟨by decide, by decide⟩

end Prompt

end StorageClient
