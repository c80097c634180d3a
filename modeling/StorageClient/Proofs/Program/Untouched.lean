import StorageClient.Proofs.Program.Faultless
import StorageClient.Proofs.Wire.Quoting

/-!
Files that are saved as they were opened. As long as nothing is typed and nothing erased, an editor
writes back the characters that it was given: their lines are lost, and nothing else is.
-/

namespace StorageClient

open Dialogue Phase

/-! ### Sessions -/

def Action.Writes : Action → Prop
  | .insert _ | .backspace => True
  | _ => False

instance : DecidablePred Action.Writes
  | .insert _ | .backspace => isTrue trivial
  | .breakLine | .move _ | .focusButtons | .focusEditor | .select _ | .confirm | .cancel
  | .resize .. => isFalse id

namespace Session

theorem text_apply_moveEdit (s : Session) (d : Direction) (t : PlainText) :
    (t.apply (s.moveEdit d)).text = t.text := by
  unfold moveEdit
  split
  · split <;> rfl
  · split <;> rfl
  · split <;> rfl

theorem text_apply_edit {s : Session} {a : Action} (h : ¬ a.Writes) (t : PlainText) :
    (t.apply (s.edit a)).text = t.text := by
  cases hm : s.mode with
  | button b =>
    rw [edit_of_button hm]
    rfl
  | editing =>
    rw [edit_of_editing hm]
    cases a with
    | insert c => exact absurd trivial h
    | backspace => exact absurd trivial h
    | move d => exact text_apply_moveEdit s d t
    | _ => rfl

theorem Sound.handle_still {s : Session} (h : s.Sound) {e : Event}
    (still : ∀ a, Action.ofEvent s.mode e = some a → ¬ a.Writes) :
    ∃ s' exit, s.handle e = .ok (s', exit) ∧ s'.Sound ∧ s'.buffer.flatten = s.buffer.flatten := by
  obtain ⟨s', exit, hs, hsound, hplain⟩ := h.feed_spec (i := .event e) nofun
  refine ⟨s', exit, hs, hsound, ?_⟩
  have htext : s'.buffer.flatten = (s.plain.apply (s.editOf (.event e))).text :=
    congrArg PlainText.text hplain
  rw [htext, editOf, Input.request]
  cases ha : Action.ofEvent s.mode e with
  | none => rfl
  | some a => exact text_apply_edit (still a ha) s.plain

theorem handle_confirm {s : Session} {e : Event} (h : Action.ofEvent s.mode e = some .confirm)
    (hm : s.mode ≠ .button .cancel) : s.handle e = .ok (s, some .saved) := by
  simp only [handle, h, apply, if_neg hm]
  rfl

theorem flatten_start (content : Text) (g : Geometry) :
    (start content g).buffer.flatten = content.filter (· ≠ '\n') :=
  congrArg PlainText.text (plain_start content g)

end Session

/-! ### Errands -/

namespace Turn

/-- Nothing is typed into an editor, and nothing is erased. -/
def Still (u : Turn) : Prop :=
  ∀ user path purpose s, u.phase = .editor user path purpose s →
    ∀ a, Action.ofEvent s.mode u.event = some a → ¬ a.Writes

def Saves (u : Turn) : Prop :=
  ∃ user path purpose s, u.phase = .editor user path purpose s ∧
    Action.ofEvent s.mode u.event = some .confirm ∧ s.mode ≠ .button .cancel

def asked? (u : Turn) : Option (Mode × Action) :=
  match u.phase with
  | .editor _ _ _ s => (Action.ofEvent s.mode u.event).map (s.mode, ·)
  | _ => none

theorem still_iff (u : Turn) : u.Still ↔ ∀ x ∈ u.asked?, ¬ x.2.Writes := by
  obtain ⟨size, ph, e, log, next⟩ := u
  cases ph with
  | editor user path purpose s =>
    constructor
    · intro still x hx
      obtain ⟨a, ha, rfl⟩ := Option.map_eq_some_iff.1 hx
      exact still user path purpose s rfl a ha
    · rintro h user path purpose s ⟨⟩ a ha
      exact h (s.mode, a) (Option.map_eq_some_iff.2 ⟨a, ha, rfl⟩)
  | _ => exact ⟨fun _ => nofun, fun _ => nofun⟩

theorem saves_iff (u : Turn) :
    u.Saves ↔ ∃ x ∈ u.asked?, x.2 = .confirm ∧ x.1 ≠ .button .cancel := by
  obtain ⟨size, ph, e, log, next⟩ := u
  constructor
  · rintro ⟨user, path, purpose, s, rfl, hconfirm, hmode⟩
    exact ⟨(s.mode, .confirm), Option.map_eq_some_iff.2 ⟨_, hconfirm, rfl⟩, rfl, hmode⟩
  · rintro ⟨x, hx, hconfirm, hmode⟩
    cases ph with
    | editor user path purpose s =>
      obtain ⟨a, ha, rfl⟩ := Option.map_eq_some_iff.1 hx
      obtain rfl : a = .confirm := hconfirm
      exact ⟨user, path, purpose, s, rfl, ha, hmode⟩
    | _ => cases hx

instance : DecidablePred Still := fun u => decidable_of_iff _ u.still_iff.symm

instance : DecidablePred Saves := fun u => decidable_of_iff _ u.saves_iff.symm

end Turn

/-- The characters of a file that is read: its newline markers stand for newlines, and those are
no characters of an editor's lines. -/
def charactersOf (data : Option Text) : Text :=
  (Escape.expand (data.getD [])).filter (· ≠ '\n')

/-- How far an edit has come, and what has been sent and answered for it so far. An editor that is
open holds the characters of the file. -/
inductive Fetching : Log → Phase → Prop
  | asking {user : Text} {answers : List Text} {q : Question} {p : Prompt} {next : Text → Form Task}
      (locates : (Form.ask q next).Locates .replace answers) :
      Fetching [] (form user .editFile q p next)
  | warned {user path : Text} {o : Outcome} {n : Notice} (failed : ∀ d, o ≠ .ok (.success d)) :
      Fetching [(.getFile path, o)] (notice n (.edit user path))
  | editing {user path : Text} {o : Outcome} {s : Session} (sound : s.Sound)
      (holds : ∀ d, o = .ok (.success d) → s.buffer.flatten = charactersOf d) :
      Fetching [(.getFile path, o)] (editor user path .replace s)
  | told (log : Log) (n : Notice) (user : Text) : Fetching log (notice n (.menu user))
  | home (log : Log) (user : Text) (m : Menu) : Fetching log (menu user m)

variable {size : Nat × Nat} {log : Log}

theorem fetching_opened {user path : Text} {o : Outcome} {content : Text}
    (h : ∀ d, o = .ok (.success d) → content = Escape.expand (d.getD [])) :
    Fetching [(.getFile path, o)] (editorOf user path .replace content size) := by
  refine .editing (Session.start_sound content (Geometry.height_ofTerminal_le size.1 size.2)) ?_
  intro d hd
  rw [Session.flatten_start, h d hd]
  rfl

theorem fetching_editFile {user path : Text} {ph : Phase}
    (h : (perform service size user .editFile (.editFile path)).Comes log ph) : Fetching log ph := by
  obtain ⟨o, rest, rfl, h⟩ := h
  rcases o with _ | _ | _ <;> obtain ⟨rfl, rfl⟩ := h
  · exact .warned nofun
  · refine fetching_opened ?_
    rintro d ⟨⟩
    rfl
  · exact .warned nofun

theorem fetching_form {user : Text} {answers : List Text} {f : Form Task} {ph : Phase}
    (locates : f.Locates .replace answers)
    (h : (proceed service size user .editFile f).Comes log ph) : Fetching log ph := by
  cases f with
  | done task =>
    obtain ⟨path, -, rfl⟩ := locates
    exact fetching_editFile h
  | ask q next =>
    obtain ⟨rfl, rfl⟩ := h
    exact .asking locates

theorem fetching_asking {before : Nat × Nat} {user : Text} {answers : List Text} {q : Question}
    {p : Prompt} {f : Text → Form Task} {e : Event} {next : Option Phase}
    (locates : (Form.ask q f).Locates .replace answers)
    (hu : Turn.Happens ⟨before, form user .editFile q p f, e, log, next⟩) :
    ∃ ph, next = some ph ∧ Fetching log ph := by
  rcases comes_typed hu with ⟨-, rfl, p', hnext⟩ | ⟨t, next', -, hnext, ht⟩
  · exact ⟨_, Except.ok.inj hnext, .asking locates⟩
  · obtain ⟨ph, front, back, rfl, ha, rfl, rfl⟩ := comes_bind ht
    refine ⟨ph, Except.ok.inj hnext, ?_⟩
    rw [List.append_nil]
    unfold Phase.answer at ha
    split at ha
    · obtain ⟨rfl, rfl⟩ := ha
      exact .home [] user _
    · next hne => exact fetching_form (locates.2 t hne) ha

theorem fetching_editor {before : Nat × Nat} {user path : Text} {o : Outcome} {s : Session}
    {e : Event} {next : Option Phase} (sound : s.Sound)
    (holds : ∀ d, o = .ok (.success d) → s.buffer.flatten = charactersOf d)
    (hu : Turn.Happens ⟨before, editor user path .replace s, e, log, next⟩)
    (still : Turn.Still ⟨before, editor user path .replace s, e, log, next⟩) :
    ∃ ph, next = some ph ∧ Fetching ((.getFile path, o) :: log) ph := by
  obtain ⟨s', exit, hs, hsound, hsame⟩ := sound.handle_still (still user path .replace s rfl)
  rcases comes_bindT hu with ⟨fault, hbad, -⟩ | ⟨a, front, back, rfl, hx, h⟩
  · cases hbad
  · obtain ⟨rfl, ha⟩ := comes_liftExcept hx
    obtain rfl := Except.ok.inj (ha.trans hs)
    cases exit with
    | none =>
      obtain ⟨rfl, hnext⟩ := h
      exact ⟨_, Except.ok.inj hnext, .editing hsound fun d hd => hsame.trans (holds d hd)⟩
    | some exit =>
      rcases comes_bindT h with ⟨fault, hbad, -⟩ | ⟨ph, front, back', rfl, hclose, rfl, hnext⟩
      · cases hbad
      · obtain ⟨_, ⟨⟩, hp⟩ := comes_lift hclose
        obtain ⟨n, rfl, -⟩ := closes_of_comes hp
        exact ⟨_, Except.ok.inj hnext, .told _ n user⟩

theorem fetching_turn {u : Turn} (h : Fetching log u.phase) (hu : u.Happens) (still : u.Still)
    (hmenu : u.isMenu = false) : ∃ ph, u.next = some ph ∧ Fetching (log ++ u.log) ph := by
  obtain ⟨before, ph, e, new, next⟩ := u
  dsimp only at h
  cases h with
  | asking locates => exact fetching_asking locates hu
  | editing sound holds => exact fetching_editor sound holds hu still
  | warned failed =>
    have hmoves := hu.moves
    dsimp only at hmoves
    cases hmoves with
    | wait => exact ⟨_, rfl, .warned failed⟩
    | dismiss => exact ⟨_, rfl, fetching_opened fun d hd => absurd hd (failed d)⟩
  | told log n user =>
    have hmoves := hu.moves
    dsimp only at hmoves
    cases hmoves with
    | wait => exact ⟨_, rfl, .told _ n user⟩
    | dismiss => exact ⟨_, rfl, .home _ user _⟩
  | home => cases hmenu

theorem fetching_chosen {u : Turn} (hu : u.Happens) (hc : u.chosen? = some .editFile) :
    u.log = [] ∧ ∃ ph, u.next = some ph ∧ Fetching [] ph := by
  obtain ⟨before, ph, e, log, next⟩ := u
  have hmoves := hu.moves
  dsimp only at hmoves
  cases ph with
  | menu user m =>
    cases hmoves with
    | select hnone m' => cases hnone.symm.trans hc
    | @choose user m e entry log ph he hp =>
      obtain rfl : entry = .editFile := Option.some.inj (he.symm.trans hc)
      have hlocates := Purpose.replace.form_locates
      cases hp
      exact ⟨rfl, _, rfl, .asking hlocates⟩
  | _ => cases hc

/-- What an errand finds at each of its turns, from one behind which an edit is under way. -/
theorem fetching_linked {ph : Phase} {us : List Turn} (h : Fetching log ph)
    (hus : Linked size (some ph) us) {done rest : List Turn} {u : Turn}
    (still : ∀ v ∈ done, v.Still)
    (hsplit : (us.takeWhile fun v => !v.isMenu) = done ++ u :: rest) :
    Fetching (log ++ done.flatMap Turn.log) u.phase := by
  induction us generalizing size log ph done with
  | nil => simp at hsplit
  | cons v vs ih =>
    obtain ⟨hph, -, hv, hvs⟩ := hus
    obtain rfl := Option.some.inj hph
    rw [List.takeWhile_cons] at hsplit
    cases hmenu : v.isMenu with
    | true => simp [hmenu] at hsplit
    | false =>
      simp only [hmenu, Bool.not_false, if_true] at hsplit
      cases done with
      | nil =>
        obtain ⟨rfl, -⟩ := List.cons.inj hsplit
        simpa using h
      | cons w done =>
        obtain ⟨rfl, hrest⟩ := List.cons.inj hsplit
        obtain ⟨hw, hdone⟩ := List.forall_mem_cons.1 still
        obtain ⟨ph', hnext, h'⟩ := fetching_turn h hv hw hmenu
        rw [hnext] at hvs
        rw [List.flatMap_cons, ← List.append_assoc]
        exact ih h' hvs hdone hrest

theorem fetching_of_mem_errands {ph : Option Phase} {us ts : List Turn} (hus : Linked size ph us)
    (h : (Entry.editFile, ts) ∈ errands us) (still : ∀ u ∈ ts, u.Still) {done rest : List Turn}
    {u : Turn} (hts : ts = done ++ u :: rest) (hu : u.isMenu = false) :
    Fetching (done.flatMap Turn.log) u.phase := by
  induction us generalizing size ph with
  | nil => cases h
  | cons v vs ih =>
    obtain ⟨-, -, hv, hvs⟩ := hus
    unfold errands at h
    split at h
    · next entry hc =>
      rcases List.mem_cons.1 h with h | h
      · obtain ⟨rfl, rfl⟩ := Prod.mk.inj h
        obtain ⟨hlog, ph', hnext, hph'⟩ := fetching_chosen hv hc
        rw [hnext] at hvs
        cases done with
        | nil =>
          -- The first turn of an errand is the choice of its entry.
          obtain ⟨rfl, -⟩ := List.cons.inj hts
          unfold Turn.chosen? at hc
          split at hc
          · next hphase => simp [Turn.isMenu, hphase] at hu
          · cases hc
        | cons w done =>
          obtain ⟨rfl, hrest⟩ := List.cons.inj hts
          rw [List.flatMap_cons, hlog, List.nil_append]
          refine fetching_linked hph' hvs (fun x hx => still x ?_) hrest
          rw [hts]
          exact List.mem_cons_of_mem _ (List.mem_append_left _ hx)
      · exact ih hvs h
    · exact ih hvs h

/-! ### Tallies -/

namespace Tally

theorem returned_foldl (us : List Turn) (y : Tally) :
    (us.foldl add y).returned = y.returned ++ us.flatMap fun u => u.returned?.toList := by
  induction us generalizing y with
  | nil => exact (List.append_nil _).symm
  | cons u us ih => rw [List.foldl_cons, ih, List.flatMap_cons, ← List.append_assoc]; rfl

theorem sent_foldl (us : List Turn) (y : Tally) :
    (us.foldl add y).sent = y.sent ++ (us.flatMap Turn.log).map (·.1) := by
  induction us generalizing y with
  | nil => exact (List.append_nil _).symm
  | cons u us ih =>
    rw [List.foldl_cons, ih, List.flatMap_cons, List.map_append, ← List.append_assoc]
    rfl

end Tally

theorem mem_returned {ts : List Turn} {u : Turn} (hu : u ∈ ts) {x : Session × Exit}
    (hx : u.returned? = some x) : x ∈ (tally ts).returned := by
  rw [tally, Tally.returned_foldl]
  exact List.mem_append_right _ (List.mem_flatMap.2 ⟨u, hu, by simp [hx]⟩)

theorem sent_tally (ts : List Turn) : (tally ts).sent = (ts.flatMap Turn.log).map (·.1) :=
  Tally.sent_foldl ts {}

/-- An edit that is saved with nothing written sends the characters of the file that was read. -/
theorem sent_of_saved {ph : Option Phase} {us ts : List Turn} (hus : Linked size ph us)
    (hts : (Entry.editFile, ts) ∈ errands us) (still : ∀ u ∈ ts, u.Still)
    (saves : ∃ u ∈ ts, u.Saves) {path : Text} {d : Option Text}
    (hread : (.getFile path, .ok (.success d)) ∈ ts.flatMap Turn.log) :
    (tally ts).sent =
      [.getFile path, .deleteFile path, .createFile path (charactersOf d)] := by
  obtain ⟨u, hu, user, path', purpose, s, hphase, hconfirm, hmode⟩ := saves
  have hreturned : (s, .saved) ∈ (tally ts).returned := by
    refine mem_returned hu ?_
    rw [Turn.returned?, hphase]
    simp only [Session.ended?, Session.handle_confirm hconfirm hmode]
  have hreplace : (Purpose.replace.entry, ts) ∈ errands us := hts
  obtain ⟨y, hy⟩ := underway_of_mem_errands hus hreplace
  obtain ⟨dir, name, n, -, -, hsent, -⟩ := underway_returned hy hreturned
  obtain ⟨done, rest, hsplit⟩ := List.append_of_mem hu
  have hfetching := fetching_of_mem_errands hus hts still hsplit (by simp [Turn.isMenu, hphase])
  rw [hphase] at hfetching
  generalize hfront : done.flatMap Turn.log = front at hfetching
  cases hfetching with
  | @editing user path' o s sound holds =>
    have hlog : ts.flatMap Turn.log = (.getFile path', o) :: (u :: rest).flatMap Turn.log := by
      rw [hsplit, List.flatMap_append, hfront]
      rfl
    rw [sent_tally, hlog, List.map_cons] at hsent ⊢
    obtain ⟨hpath, hrest⟩ := List.cons.inj hsent
    obtain rfl := Command.getFile.inj hpath
    rw [hlog] at hread
    rcases List.mem_cons.1 hread with hhead | hmem
    · obtain ⟨rfl, rfl⟩ : path = Path.file (Path.normalize dir) name ∧ .ok (.success d) = o := by
        simpa using hhead
      rw [hrest, holds d rfl]
    · -- Nothing is read behind the first command.
      have hcommand : Command.getFile path ∈ ((u :: rest).flatMap Turn.log).map (·.1) :=
        List.mem_map.2 ⟨_, hmem, rfl⟩
      rw [hrest] at hcommand
      simp at hcommand

/-- In every run, an edit that is saved with nothing typed and nothing erased, whatever is done
else, reads the file once, deletes it, and creates it again. The content that it quotes is decoded
to the characters that were read; sizes, moves and line breaks do not show in it. On a terminal of
screen sizes no run breaks off in a fault. -/
theorem runProgram_untouched {σ : Type} (svc : Service (StateM σ)) (t : Terminal) (s : σ) :
    let r := (runProgram svc.logged t .login).run.run (s, [])
    (runProgram svc t .login).run.run s = (r.1, r.2.1) ∧ (t.HasSizes → ∃ run, r.1 = .ok run) ∧
      ∃ us, Records t.size .login (t.events.filter Event.isUsed) r.2.2 r.1 us ∧
        ∀ ts path d, (Entry.editFile, ts) ∈ errands us →
          (.getFile path, .ok (.success d)) ∈ ts.flatMap Turn.log →
          (∀ u ∈ ts, u.Still) → (∃ u ∈ ts, u.Saves) →
            let content := (Escape.expand (d.getD [])).filter (· ≠ '\n')
            (tally ts).sent = [.getFile path, .deleteFile path, .createFile path content] ∧
              ∃ quoted ms,
                (Command.createFile path content).line =
                  "create_file".toList ++ ' ' :: (path ++ ' ' :: '"' :: quoted) ∧
                Escape.scan quoted = some (ms, []) ∧ ms.map Escape.Mark.char = content := by
  obtain ⟨hplain, us, hus⟩ := runProgram_logged svc t .login s
  refine ⟨hplain, fun ht => runProgram_ok svc ht Phase.login_safe s, us, hus, ?_⟩
  intro ts path d hts hread still saves
  refine ⟨sent_of_saved hus.linked hts still saves hread, _, _,
    Command.line_createFile path (charactersOf d), Escape.scan_encode (charactersOf d) [],
    Escape.map_char_markOf (charactersOf d)⟩

def twoLines : Service (StateM Unit) := fun _ => pure (.ok (.success (some "p\\nq".toList)))

/-- A user opens a file, breaks a line, and saves while the terminal shrinks. -/
def resaving : Terminal where
  size := (80, 24)
  events := keys.map (fun code => .key { code }) ++
    [.key { code := .right }, .key { code := .char 'j', mods := { ctrl := true } }, .resize 9 9,
      .key { code := .enter }]
where
  keys : List KeyCode :=
    [.char 'a', .enter, .char 'b', .enter, .enter, .down, .down, .down, .down, .down, .down, .enter,
      .enter, .char 'x', .enter]

theorem runProgram_untouched_resaving :
    let r := (runProgram twoLines.logged resaving .login).run.run ((), [])
    ∃ us, Records resaving.size .login (resaving.events.filter Event.isUsed) r.2.2 r.1 us ∧
      ∃ ts, (Entry.editFile, ts) ∈ errands us ∧
        (.getFile "/x".toList, .ok (.success (some "p\\nq".toList))) ∈ ts.flatMap Turn.log ∧
        (∀ u ∈ ts, u.Still) ∧ (∃ u ∈ ts, u.Saves) ∧
        (tally ts).sent =
          [.getFile "/x".toList, .deleteFile "/x".toList, .createFile "/x".toList ['p', 'q']] ∧
        ∃ quoted ms,
          (Command.createFile "/x".toList ['p', 'q']).line =
            "create_file".toList ++ ' ' :: ("/x".toList ++ ' ' :: '"' :: quoted) ∧
          Escape.scan quoted = some (ms, []) ∧ ms.map Escape.Mark.char = ['p', 'q'] := by
  obtain ⟨-, -, us, hus, h⟩ := runProgram_untouched twoLines resaving ()
  have hreplay := hus.eq_replay (by decide +kernel)
  have herrands : (errands us).map (fun e => (e.1,
      decide ((∀ u ∈ e.2, u.Still) ∧ ∃ u ∈ e.2, u.Saves),
      (e.2.flatMap Turn.log).head?.map fun x => (x.1, x.2.toOption))) =
      [(.editFile, true,
        some (.getFile "/x".toList, some (.success (some "p\\nq".toList))))] := by
    rw [hreplay]
    decide +kernel
  obtain ⟨⟨_, ts⟩, hus', hedit⟩ := List.map_eq_singleton_iff.1 herrands
  obtain ⟨rfl, hdecide, hread⟩ := by simpa only [Prod.mk.injEq] using hedit
  obtain ⟨still, saves⟩ := of_decide_eq_true hdecide
  obtain ⟨⟨c, o⟩, hhead, hx⟩ := Option.map_eq_some_iff.1 hread
  obtain ⟨rfl, ho⟩ := Prod.mk.inj hx
  have hts : (Entry.editFile, ts) ∈ errands us := hus' ▸ List.mem_singleton_self _
  cases o with
  | error => cases ho
  | ok reply =>
    obtain rfl := Option.some.inj ho
    have hmem := List.mem_of_mem_head? hhead
    exact ⟨us, hus, ts, hts, hmem, still, saves, h ts _ _ hts hmem still saves⟩

end StorageClient
