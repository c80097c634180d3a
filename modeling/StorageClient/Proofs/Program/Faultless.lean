import StorageClient.Proofs.Editor.History
import StorageClient.Proofs.Editor.Steps
import StorageClient.Proofs.Program.Errands
import StorageClient.Proofs.Screen.Drawable
import StorageClient.Proofs.Screen.Selection

/-!
No run ends in a fault. The phases that a run reaches keep what their widgets need, whatever the
terminal reports and whatever the service answers; so each of them can be drawn, and takes the next
event.
-/

namespace StorageClient

/-! ### Dialogues without faults -/

namespace Dialogue

variable {α β : Type} {Q : α → Prop} {R : β → Prop}

/-- Whatever is answered, there is a result and no fault, and the result satisfies `Q`. -/
def Sure (Q : α → Prop) (x : ExceptT Fault Dialogue α) : Prop :=
  x.run.Sat (fun _ => True) fun r => ∃ a, r = .ok a ∧ Q a

theorem Sat.trivial (d : Dialogue α) : d.Sat (fun _ => True) fun _ => True := by
  induction d with
  | done a => exact True.intro
  | ask c next ih => exact ⟨True.intro, ih⟩

theorem Sat.of_comes {P : Command → Prop} {d : Dialogue α} (h : d.Sat P Q) {log : Log} {a : α}
    (hc : d.Comes log a) : Q a := by
  induction d generalizing log with
  | done b =>
    obtain ⟨-, rfl⟩ := hc
    exact h
  | ask c next ih =>
    obtain ⟨o, rest, -, hc⟩ := hc
    exact ih o (h.2 o) hc

theorem Sure.of_comes {x : ExceptT Fault Dialogue α} (h : Sure Q x) {log : Log} {r : Except Fault α}
    (hc : x.run.Comes log r) : ∃ a, r = .ok a ∧ Q a :=
  Sat.of_comes h hc

theorem Sure.pure {a : α} (h : Q a) : Sure Q (pure a) := ⟨a, rfl, h⟩

theorem Sure.lift {d : Dialogue α} (h : d.Sat (fun _ => True) Q) : Sure Q (ExceptT.lift d) :=
  Sat.bind h fun a ha => ⟨a, rfl, ha⟩

theorem Sure.liftExcept {x : Except Fault α} {a : α} (hx : x = .ok a) (h : Q a) :
    Sure Q (liftM x) := by
  subst hx
  exact ⟨a, rfl, h⟩

theorem Sure.bind {x : ExceptT Fault Dialogue α} {f : α → ExceptT Fault Dialogue β}
    (hx : Sure Q x) (hf : ∀ a, Q a → Sure R (f a)) : Sure R (x >>= f) := by
  refine Sat.bind hx ?_
  rintro _ ⟨a, rfl, ha⟩
  exact hf a ha

end Dialogue

open Dialogue

/-! ### What each phase keeps -/

structure Menu.Sound (m : Menu) : Prop where
  selected_lt : m.selected < m.count
  count_le : m.count ≤ Word.max16

/-- What a phase keeps, so that it can be drawn and takes every event. -/
def Phase.Safe : Phase → Prop
  | .menu _ m => m.Sound
  | .editor _ _ _ s => s.Sound ∧ s.geometry.LaidOut
  | .reader _ _ r => r.Sound
  | .username _ | .password .. | .notice .. | .form .. => True

theorem Menu.sound_start {n : Nat} (h : n ≤ Word.max16) : (start n).Sound where
  selected_lt := (start n).count_pos
  count_le := Nat.max_le.2 ⟨h, by decide⟩

theorem Menu.Sound.handle_spec {m : Menu} (h : m.Sound) (k : Key) :
    ∃ m' i, m.handle k = .ok (m', i) ∧ m'.Sound := by
  have hcount : m.count ≤ Word.half64 := Nat.le_trans h.count_le (by decide)
  obtain ⟨m', hm', hpoints⟩ := (points_of_lt h.selected_lt).handle hcount k
  exact ⟨m', _, hm', hpoints.count_eq.symm ▸ hpoints.selected_lt,
    hpoints.count_eq.symm ▸ h.count_le⟩

namespace Reader

theorem sound_of_ofTerminal {r : Reader} {w h : Nat} (hg : r.geometry = .ofTerminal w h)
    (hheight : r.viewport.height = r.geometry.visibleHeight)
    (hscroll : r.viewport.scroll ≤ r.lines.length - r.viewport.height) : r.Sound where
  inRange := by
    refine ⟨hscroll, ?_⟩
    rw [hheight, hg]
    exact Geometry.visibleHeight_le (Geometry.height_ofTerminal_le w h)
  laidOut := hg ▸ Geometry.laidOut_ofTerminal w h

theorem height_top (g : Geometry) : (Viewport.top g.visibleHeight).height = g.visibleHeight :=
  Nat.max_eq_left g.visibleHeight_pos

theorem sound_start (sent : Text) (w h : Nat) : (start sent (.ofTerminal w h)).Sound :=
  sound_of_ofTerminal rfl (height_top _) (Nat.zero_le _)

theorem Sound.scrollBy {r : Reader} (h : r.Sound) (d : Int) : (r.scrollBy d).Sound where
  inRange := ⟨Nat.min_le_right .., h.inRange.height_le⟩
  laidOut := h.laidOut

theorem Sound.handle {r r' : Reader} (h : r.Sound) {e : Event} (he : r.handle e = some r') :
    r'.Sound := by
  unfold Reader.handle at he
  split at he
  · next w h' =>
    obtain rfl := Option.some.inj he
    exact sound_of_ofTerminal rfl (height_top _) (Nat.min_le_right ..)
  · split at he
    · cases he
    · cases he
    · exact Option.some.inj he ▸ h.scrollBy (-1)
    · exact Option.some.inj he ▸ h.scrollBy 1
    · exact Option.some.inj he ▸ h
  · exact Option.some.inj he ▸ h

end Reader

namespace Session

theorem Step.laidOut {s s' : Session} {a : Action} {exit : Option Exit}
    (h : s.Step a s' exit) (hg : s.geometry.LaidOut) : s'.geometry.LaidOut := by
  cases h with
  | edited | moved | turned | cancelled | confirmed => exact hg
  | resized => exact Geometry.laidOut_ofTerminal _ _

theorem laidOut_of_handle {s s' : Session} {e : Event} {exit : Option Exit}
    (hg : s.geometry.LaidOut) (h : s.handle e = .ok (s', exit)) : s'.geometry.LaidOut := by
  unfold handle at h
  split at h
  · exact (Step.of_apply h).laidOut hg
  · cases h
    exact hg

end Session

namespace Phase

variable {size : Nat × Nat} {user path : Text} {entry : Entry}

/-! ### Frames -/

theorem draw_returns {ph : Phase} (h : ph.Safe) (hsize : IsSize size) :
    Returns (ph.draw (screenOf size)) := by
  have prompt : ∀ (title : Text) (p : Prompt), Returns (draw.prompt (screenOf size) title p) :=
    fun title p => .bind_of (p.cursor_returns hsize.onScreen) fun c =>
      .bind_of (p.draw_returns title hsize.onScreen) fun _ => .pure _
  cases ph with
  | username p => exact prompt "Username:".toList p
  | password user p => exact prompt "Password:".toList p
  | form user entry q p next => exact prompt q.title p
  | notice n next =>
    exact .bind_of (MessageBox.draw_returns n.title n.body hsize.onScreen) fun _ => .pure _
  | menu user m => exact .pure _
  | editor user path purpose s =>
    exact .bind_of (EditorView.cursor_returns h.1 h.2 size) fun c =>
      .bind_of (EditorView.draw_returns h.1 h.2 path size) fun _ => .pure _
  | reader user path r => exact .bind_of (r.draw_returns h path size) fun _ => .pure _

theorem frame_returns {ph : Phase} (h : ph.Safe) (hsize : IsSize size) : Returns (ph.frame size) :=
  .bind_of (draw_returns h hsize) fun _ => .pure _

/-! ### Steps -/

theorem login_safe : login.Safe := trivial

theorem menuOf_safe (user : Text) : (menuOf user).Safe := Menu.sound_start (by decide)

theorem editorOf_safe (purpose : Purpose) (content : Text) :
    (editorOf user path purpose content size).Safe :=
  ⟨Session.start_sound content (Geometry.height_ofTerminal_le size.1 size.2),
    Geometry.laidOut_ofTerminal size.1 size.2⟩

theorem ofNext_safe (next : Next) : ∀ ph ∈ ofNext size next, ph.Safe := by
  cases next with
  | login =>
    rintro ph ⟨⟩
    trivial
  | menu user =>
    rintro ph ⟨⟩
    exact menuOf_safe user
  | edit user path =>
    rintro ph ⟨⟩
    exact editorOf_safe .replace []
  | leave => rintro ph ⟨⟩

theorem perform_safe (task : Task) :
    (perform service size user entry task).Sat (fun _ => True) Safe := by
  cases task with
  | request c => exact (Sat.trivial _).bind fun _ _ => trivial
  | listFiles dir => exact (Sat.trivial _).bind fun _ _ => trivial
  | renameFile oldDir oldName newDir newName => exact (Sat.trivial _).bind fun _ _ => trivial
  | createFile path => exact editorOf_safe .create []
  | readFile path =>
    refine (Sat.trivial _).bind fun r _ => ?_
    cases r with
    | ok content => exact Reader.sound_start content size.1 size.2
    | error n => trivial
  | editFile path =>
    refine (Sat.trivial _).bind fun l _ => ?_
    cases l.warning with
    | none => exact editorOf_safe .replace l.content
    | some n => trivial
  | logout => exact (Sat.trivial _).bind fun _ _ => trivial

theorem proceed_safe (form : Form Task) :
    (proceed service size user entry form).Sat (fun _ => True) Safe := by
  cases form with
  | done task => exact perform_safe task
  | ask q next => trivial

theorem tryLogin_safe (user password : Text) :
    (tryLogin service user password).Sat (fun _ => True) fun next => ∀ ph ∈ next, ph.Safe := by
  unfold tryLogin
  split
  · rintro ph ⟨⟩
  · refine (Sat.trivial _).bind fun r _ => ?_
    cases r <;>
    · rintro ph ⟨⟩
      trivial

theorem answer_safe (q : Question) (next : Text → Form Task) (t : Text) :
    (answer service size user entry q next t).Sat (fun _ => True) Safe := by
  unfold answer
  split
  · exact menuOf_safe user
  · exact proceed_safe (next t)

theorem close_safe (purpose : Purpose) (text : Option Text) :
    (close service user path purpose text).Sat (fun _ => True) Safe := by
  unfold close
  cases text with
  | none => trivial
  | some t => cases purpose <;> exact (Sat.trivial _).bind fun _ _ => trivial

theorem typed_sure (p : Prompt) (e : Event) {stay : Prompt → Phase}
    {accept : Text → Dialogue (Option Phase)} (hstay : ∀ p, (stay p).Safe)
    (haccept : ∀ t, (accept t).Sat (fun _ => True) fun next => ∀ ph ∈ next, ph.Safe) :
    Sure (fun next => ∀ ph ∈ next, ph.Safe) (typed p e stay accept) := by
  have hkeep : ∀ p, ∀ ph ∈ some (stay p), ph.Safe := by
    rintro p ph ⟨⟩
    exact hstay p
  cases e with
  | key k =>
    unfold typed
    dsimp only
    cases p.handle k with
    | ok p' => exact Sure.pure (hkeep p')
    | error t => exact Sure.lift (haccept t)
  | _ => exact Sure.pure (hkeep p)

/-- One event ends in no fault, and leads to a phase that keeps what it needs. -/
theorem step_sure {ph : Phase} (h : ph.Safe) (e : Event) :
    Sure (fun next => ∀ ph ∈ next, ph.Safe) (ph.step service size e) := by
  have hstay : ∀ ph : Phase, ph.Safe → ∀ ph' ∈ some ph, ph'.Safe := by
    rintro ph h ph' ⟨⟩
    exact h
  cases ph with
  | username p =>
    exact typed_sure p e (fun _ => trivial) fun t => hstay (.password t { hidden := true }) trivial
  | password user p => exact typed_sure p e (fun _ => trivial) fun t => tryLogin_safe user t
  | form user entry q p next =>
    exact typed_sure p e (fun _ => trivial) fun t =>
      (answer_safe q next t).bind fun ph hph => hstay ph hph
  | notice n next =>
    cases e with
    | key k => exact Sure.pure (ofNext_safe next)
    | _ => exact Sure.pure (hstay (.notice n next) trivial)
  | menu user m =>
    cases e with
    | key k =>
      obtain ⟨m', i, hm, hsound⟩ := Menu.Sound.handle_spec h k
      refine Sure.bind (Q := (· = (m', i))) (Sure.liftExcept hm rfl) ?_
      rintro _ rfl
      cases i with
      | none => exact Sure.pure (hstay (.menu user m') hsound)
      | some i =>
        dsimp only
        cases Entry.all[i]? with
        | none => exact Sure.pure (hstay (menuOf user) (menuOf_safe user))
        | some entry =>
          exact Sure.bind (Sure.lift (proceed_safe entry.form)) fun ph hph =>
            Sure.pure (hstay ph hph)
    | _ => exact Sure.pure (hstay (.menu user m) h)
  | editor user path purpose s =>
    obtain ⟨hsound, hg⟩ := h
    obtain ⟨s', exit, hs, hsound', -⟩ := hsound.feed_spec (i := .event e) nofun
    refine Sure.bind (Q := (· = (s', exit))) (Sure.liftExcept hs rfl) ?_
    rintro _ rfl
    cases exit with
    | none =>
      have hg' := Session.laidOut_of_handle hg hs
      exact Sure.pure (hstay (.editor user path purpose s') ⟨hsound', hg'⟩)
    | some exit =>
      exact Sure.bind (Sure.lift (close_safe purpose (s'.finish exit))) fun ph hph =>
        Sure.pure (hstay ph hph)
  | reader user path r =>
    simp only [step]
    cases hr : r.handle e with
    | none => exact Sure.pure (hstay (menuOf user) (menuOf_safe user))
    | some r' => exact Sure.pure (hstay (.reader user path r') (Reader.Sound.handle h hr))

end Phase

/-! ### Runs -/

/-- After an event the terminal has one of the sizes still, and so it goes on. -/
theorem isSize_cons {size : Nat × Nat} (hsize : IsSize size) {e : Event} {es : List Event}
    (hes : ∀ w h, .resize w h ∈ e :: es → IsSize (w, h)) :
    IsSize (sizeAfter size e) ∧ ∀ w h, .resize w h ∈ es → IsSize (w, h) := by
  refine ⟨?_, fun w h hmem => hes w h (List.mem_cons_of_mem e hmem)⟩
  cases e with
  | resize w h => exact hes w h List.mem_cons_self
  | _ => exact hsize

theorem runFrom_sure {size : Nat × Nat} (hsize : IsSize size) (framesLeft : Option Nat) {ph : Phase}
    (h : ph.Safe) {es : List Event} (hes : ∀ w h, .resize w h ∈ es → IsSize (w, h)) :
    Sure (fun _ => True) (runFrom service size framesLeft ph es) := by
  -- Two things pass from event to event: the phase is safe, and the size is one of a screen.
  induction es generalizing size framesLeft ph with
  | nil =>
    rw [runFrom_nil]
    split
    · exact Sure.pure trivial
    · obtain ⟨f, hf⟩ := Phase.frame_returns h hsize
      exact (Sure.liftExcept (Q := fun _ => True) hf trivial).bind fun _ _ => Sure.pure trivial
  | cons e es ih =>
    obtain ⟨hsize', hes'⟩ := isSize_cons hsize hes
    cases hused : e.isUsed with
    | false =>
      rw [runFrom_cons_of_not_isUsed _ _ _ _ hused]
      exact ih hsize framesLeft h hes'
    | true =>
      rw [runFrom_cons_of_isUsed _ _ _ _ hused]
      split
      · exact Sure.pure trivial
      · obtain ⟨f, hf⟩ := Phase.frame_returns h hsize
        refine (Sure.liftExcept (Q := fun _ => True) hf trivial).bind fun f _ => ?_
        refine (Phase.step_sure h e).bind fun next hnext => ?_
        cases next with
        | none => exact Sure.pure trivial
        | some ph =>
          have hrest := ih hsize' (framesLeft.map (· - 1)) (hnext ph rfl) hes'
          exact hrest.bind fun _ _ => Sure.pure trivial

/-- The terminal has a size of two screen coordinates, and reports no others. -/
def Terminal.HasSizes (t : Terminal) : Prop :=
  IsSize t.size ∧ ∀ w h, .resize w h ∈ t.events → IsSize (w, h)

theorem runProgram_sure {t : Terminal} (ht : t.HasSizes) {ph : Phase} (h : ph.Safe) :
    Sure (fun _ => True) (runProgram service t ph) := by
  unfold runProgram
  split
  · exact Sure.pure trivial
  · split
    · exact Sure.pure trivial
    · exact runFrom_sure ht.1 t.framesLeft h ht.2

/-- A run that begins where nothing is missing ends without a fault. -/
theorem runProgram_ok {σ : Type} (svc : Service (StateM σ)) {t : Terminal} (ht : t.HasSizes)
    {ph : Phase} (h : ph.Safe) (s : σ) :
    ∃ run, ((runProgram svc.logged t ph).run.run (s, [])).1 = .ok run := by
  obtain ⟨new, -, hcomes⟩ := svc.comes_logged (runProgram service t ph).run s []
  obtain ⟨run, hrun, -⟩ := (runProgram_sure ht h).of_comes hcomes
  refine ⟨run, ?_⟩
  rw [← answerT_runProgram svc.logged]
  exact hrun

theorem safe_of_linked {size : Nat × Nat} {ph : Option Phase} {us : List Turn}
    (h : Linked size ph us) (hph : ∀ p ∈ ph, p.Safe) : ∀ u ∈ us, ∀ p ∈ u.next, p.Safe := by
  induction us generalizing size ph with
  | nil => exact fun u hu => absurd hu List.not_mem_nil
  | cons u us ih =>
    obtain ⟨rfl, -, hu, hus⟩ := h
    obtain ⟨next, hnext, hsafe⟩ := (Phase.step_sure (hph u.phase rfl) u.event).of_comes hu
    obtain rfl := Except.ok.inj hnext
    exact List.forall_mem_cons.2 ⟨hsafe, ih hus hsafe⟩

/-- Every run comes to its end without a fault, whatever the service answers. Each phase that it
reaches can be drawn on a terminal of any size, also on one that is smaller than what its window was
laid out for. -/
theorem runProgram_faultless {σ : Type} (svc : Service (StateM σ)) {t : Terminal}
    (ht : t.HasSizes) (s : σ) :
    let r := (runProgram svc.logged t .login).run.run (s, [])
    (runProgram svc t .login).run.run s = (r.1, r.2.1) ∧ (∃ run, r.1 = .ok run) ∧
      ∃ us, Records t.size .login (t.events.filter Event.isUsed) r.2.2 r.1 us ∧
        ∀ ph, ph = .login ∨ (∃ u ∈ us, u.next = some ph) →
          ∀ size, IsSize size → ∃ f, ph.frame size = .ok f := by
  obtain ⟨hplain, us, hus⟩ := runProgram_logged svc t .login s
  refine ⟨hplain, runProgram_ok svc ht Phase.login_safe s, us, hus, fun ph hph size hsize => ?_⟩
  refine Phase.frame_returns ?_ hsize
  rcases hph with rfl | ⟨u, hu, hnext⟩
  · exact Phase.login_safe
  · exact safe_of_linked hus.linked (fun p hp => Option.some.inj hp ▸ Phase.login_safe) u hu ph hnext

/-- An editor is opened on the largest terminal, which then shrinks to nothing. -/
def shrinking : Terminal where
  size := (65535, 65535)
  events := creating.events.take 13 ++ [.resize 0 0, .key { code := .up }, .resize 7 65535]

theorem runProgram_faultless_shrinking :
    shrinking.HasSizes ∧
      (∃ run, ((runProgram obliging.logged shrinking .login).run.run ((), [])).1 = .ok run) ∧
      ∃ us, Records shrinking.size .login (shrinking.events.filter Event.isUsed)
          ((runProgram obliging.logged shrinking .login).run.run ((), [])).2.2
          ((runProgram obliging.logged shrinking .login).run.run ((), [])).1 us ∧
        ∀ ph, ph = .login ∨ (∃ u ∈ us, u.next = some ph) →
          ∀ size, IsSize size → ∃ f, ph.frame size = .ok f := by
  have ht : shrinking.HasSizes := by
    refine ⟨⟨by decide, by decide⟩, fun w h hmem => ?_⟩
    obtain ⟨rfl, rfl⟩ | ⟨rfl, rfl⟩ : w = 0 ∧ h = 0 ∨ w = 7 ∧ h = 65535 := by
      simpa [shrinking, creating, creating.keys] using hmem
    · exact ⟨by decide, by decide⟩
    · exact ⟨by decide, by decide⟩
  obtain ⟨-, hrun, hus⟩ := runProgram_faultless obliging ht ()
  exact ⟨ht, hrun, hus⟩

end StorageClient
