import StorageClient.Proofs.Program.Record

/-!
What becomes of an edit. An errand is what a run does from the choice of an entry to the next menu;
one that opens an editor sends what its end calls for and nothing else, and says so in one box.
-/

namespace StorageClient

variable {size : Nat × Nat}

/-! ### Errands -/

namespace Turn

def isMenu (u : Turn) : Bool :=
  match u.phase with
  | .menu _ _ => true
  | _ => false

def chosen? (u : Turn) : Option Entry :=
  match u.phase with
  | .menu _ m => m.chosen? u.event
  | _ => none

def answer? (u : Turn) : Option Text :=
  match u.phase with
  | .form _ _ _ p _ => p.answer? u.event
  | _ => none

def returned? (u : Turn) : Option (Session × Exit) :=
  match u.phase with
  | .editor _ _ _ s => s.ended? u.event
  | _ => none

def box? (u : Turn) : Option Notice :=
  match u.phase, u.next with
  | .notice _ _, _ => none
  | _, some (.notice n _) => some n
  | _, _ => none

end Turn

/-- Each entry that is chosen, with the turns from its choice to the next menu. -/
def errands : List Turn → List (Entry × List Turn)
  | [] => []
  | u :: us =>
    match u.chosen? with
    | some entry => (entry, u :: us.takeWhile fun v => !v.isMenu) :: errands us
    | none => errands us

structure Tally where
  answers : List Text := []
  sent : List Command := []
  returned : List (Session × Exit) := []
  boxes : List Notice := []
  /-- The boxes since the editor returned. -/
  boxesSince : List Notice := []

namespace Tally

def add (y : Tally) (u : Turn) : Tally where
  answers := y.answers ++ u.answer?.toList
  sent := y.sent ++ u.log.map (·.1)
  returned := y.returned ++ u.returned?.toList
  boxes := y.boxes ++ u.box?.toList
  boxesSince :=
    if (y.returned ++ u.returned?.toList).isEmpty then [] else y.boxesSince ++ u.box?.toList

end Tally

def tally (us : List Turn) : Tally := us.foldl Tally.add {}

/-! ### Edits -/

namespace Purpose

def entry : Purpose → Entry
  | create => .createFile
  | replace => .editFile

def task (path : Text) : Purpose → Task
  | create => .createFile path
  | replace => .editFile path

def opening (path : Text) : Purpose → List Command
  | create => []
  | replace => [.getFile path]

/-- What is sent in all, by the end of the editor. -/
def commands (path content : Text) : Purpose → Exit → List Command
  | create, .cancelled => []
  | create, .saved => [.createFile path content]
  | replace, .cancelled => [.getFile path]
  | replace, .saved => [.getFile path, .deleteFile path, .createFile path content]

end Purpose

def Located (answers : List Text) (path : Text) : Prop :=
  ∃ dir name, answers = [dir, name] ∧ name ≠ [] ∧ path = Path.file (Path.normalize dir) name

def Unnamed (answers : List Text) : Prop := ∃ dir, answers = [dir, []]

/-- Behind the answers so far, the form comes to the task of a located file or is left unnamed. -/
def Form.Locates (purpose : Purpose) : List Text → Form Task → Prop
  | answers, .done task => ∃ path, Located answers path ∧ task = purpose.task path
  | answers, .ask q next =>
    (q.required = true → Unnamed (answers ++ [[]])) ∧
      ∀ t, ¬(q.required = true ∧ t = []) → (next t).Locates purpose (answers ++ [t])

theorem Purpose.form_locates (purpose : Purpose) : purpose.entry.form.Locates purpose [] := by
  have located : ∀ (dir : Text) {name : Text}, name ≠ [] → ∃ path, Located [dir, name] path ∧
      purpose.task (Path.file (Path.normalize dir) name) = purpose.task path :=
    fun dir name hname => ⟨_, ⟨dir, name, rfl, hname, rfl⟩, rfl⟩
  -- The directory may be blank, the name may not.
  cases purpose with
  | create =>
    exact ⟨nofun, fun dir _ => ⟨fun _ => ⟨dir, rfl⟩, fun _ h => located dir fun hn => h ⟨rfl, hn⟩⟩⟩
  | replace =>
    exact ⟨nofun, fun dir _ => ⟨fun _ => ⟨dir, rfl⟩, fun _ h => located dir fun hn => h ⟨rfl, hn⟩⟩⟩

/-- The editor has returned: what was sent is what its end calls for, and one box tells it. -/
def Settled (purpose : Purpose) (y : Tally) : Prop :=
  ∃ path s exit n, Located y.answers path ∧ y.sent = purpose.commands path s.buffer.flatten exit ∧
    y.returned = [(s, exit)] ∧ y.boxesSince = [n] ∧ (n = .editCancelled ↔ exit = .cancelled)

open Phase

inductive Underway (purpose : Purpose) : Tally → Phase → Prop
  | asking {y : Tally} {user : Text} {q : Question} {p : Prompt} {next : Text → Form Task}
      (answers : (Form.ask q next).Locates purpose y.answers) (sent : y.sent = [])
      (returned : y.returned = []) (boxes : y.boxes = []) (boxesSince : y.boxesSince = []) :
      Underway purpose y (form user purpose.entry q p next)
  | unnamed {y : Tally} {user : Text} {m : Menu} (answers : Unnamed y.answers) (sent : y.sent = [])
      (returned : y.returned = []) (boxes : y.boxes = []) : Underway purpose y (menu user m)
  | warned {y : Tally} {user path : Text} {n : Notice} (hp : purpose = .replace)
      (answers : Located y.answers path) (sent : y.sent = purpose.opening path)
      (returned : y.returned = []) (boxesSince : y.boxesSince = []) :
      Underway purpose y (notice n (.edit user path))
  | editing {y : Tally} {user path : Text} {s : Session} (answers : Located y.answers path)
      (sent : y.sent = purpose.opening path) (returned : y.returned = [])
      (boxesSince : y.boxesSince = []) : Underway purpose y (editor user path purpose s)
  | told {y : Tally} {user : Text} {n : Notice} (settled : Settled purpose y) :
      Underway purpose y (notice n (.menu user))
  | home {y : Tally} {user : Text} {m : Menu} (settled : Settled purpose y) :
      Underway purpose y (menu user m)

theorem Tally.add_idle {y : Tally} {u : Turn} (hanswer : u.answer? = none) (hlog : u.log = [])
    (hreturned : u.returned? = none) (hbox : u.box? = none)
    (hsince : y.returned = [] → y.boxesSince = []) : y.add u = y := by
  obtain ⟨answers, sent, returned, boxes, boxesSince⟩ := y
  by_cases h : returned = []
  · obtain rfl : boxesSince = [] := hsince h
    simp [add, hanswer, hlog, hreturned, hbox]
  · simp [add, hanswer, hlog, hreturned, hbox, h]

theorem Settled.returned_ne_nil {purpose : Purpose} {y : Tally} (h : Settled purpose y) :
    y.returned ≠ [] := by
  obtain ⟨path, s, exit, n, -, -, hreturned, -⟩ := h
  simp [hreturned]

section Moves

variable {purpose : Purpose} {y : Tally} {before : Nat × Nat} {ph : Phase} {e : Event} {log : Log}
  {next : Option Phase}

theorem underway_perform {user path : Text} {u : Turn} (hu : u.log = log)
    (ha : Located (y.add u).answers path) (hp : Performs size user (purpose.task path) log ph)
    (hsent : y.sent = []) (hreturned : (y.add u).returned = [])
    (hsince : (y.add u).boxesSince = []) : Underway purpose (y.add u) ph := by
  have hadd : (y.add u).sent = log.map (·.1) := by simp [Tally.add, hsent, hu]
  cases purpose with
  | create =>
    cases hp with
    | tell h => cases h
    | create => exact .editing ha hadd hreturned hsince
  | replace =>
    cases hp with
    | tell h => cases h
    | edit path o content => exact .editing ha hadd hreturned hsince
    | warn path o n => exact .warned rfl ha hadd hreturned hsince

theorem closes_spec {path : Text} {s : Session} {exit : Exit} {n : Notice}
    (hc : Closes path purpose (s.finish exit) log n) :
    purpose.opening path ++ log.map (·.1) = purpose.commands path s.buffer.flatten exit ∧
      (n = .editCancelled ↔ exit = .cancelled) := by
  cases exit with
  | cancelled =>
    change Closes path purpose none log n at hc
    cases hc with
    | cancel => exact ⟨by cases purpose <;> rfl, fun _ => rfl, fun _ => rfl⟩
  | saved =>
    change Closes path purpose (some s.buffer.flatten) log n at hc
    cases hc with
    | create t o hn => exact ⟨rfl, fun h => absurd h hn, nofun⟩
    | replace t o o' hn => exact ⟨rfl, fun h => absurd h hn, nofun⟩

theorem underway_asking {user : Text} {q : Question} {p : Prompt} {f : Text → Form Task}
    (answers : (Form.ask q f).Locates purpose y.answers) (sent : y.sent = [])
    (returned : y.returned = []) (boxes : y.boxes = []) (boxesSince : y.boxesSince = [])
    (hm : Moves size (form user purpose.entry q p f) e log next) :
    ∃ ph, next = some ph ∧
      Underway purpose (y.add ⟨before, form user purpose.entry q p f, e, log, next⟩) ph := by
  cases hm with
  | typeAnswer ha p' =>
    refine ⟨form user purpose.entry q p' f, rfl, ?_⟩
    have hidle : Turn.answer? ⟨before, form user purpose.entry q p f, e, [],
        some (form user purpose.entry q p' f)⟩ = none := ha
    rw [Tally.add_idle hidle rfl rfl rfl fun _ => boxesSince]
    exact .asking answers sent returned boxes boxesSince
  | giveUp ha hq =>
    refine ⟨_, rfl, .unnamed ?_ ?_ ?_ ?_⟩
    · simpa [Tally.add, Turn.answer?, ha] using answers.1 hq
    · simp [Tally.add, sent]
    · simp [Tally.add, Turn.returned?, returned]
    · simp [Tally.add, Turn.box?, boxes, menuOf]
  | @fill user t entry q p f e log ph ha ht hp =>
    have hlocates := answers.2 t ht
    have hanswers : (y.add ⟨before, form user purpose.entry q p f, e, log, some ph⟩).answers =
        y.answers ++ [t] := by simp [Tally.add, Turn.answer?, ha]
    refine ⟨_, rfl, ?_⟩
    -- The answer leads to the next question or to the task.
    generalize f t = rest at hlocates hp
    cases hp with
    | ask q' f' =>
      refine .asking ?_ ?_ ?_ ?_ ?_
      · rwa [hanswers]
      · simp [Tally.add, sent]
      · simp [Tally.add, Turn.returned?, returned]
      · simp [Tally.add, Turn.box?, boxes]
      · simp [Tally.add, Turn.returned?, returned]
    | perform hp =>
      obtain ⟨path, hlocated, rfl⟩ := hlocates
      refine underway_perform rfl (by rwa [hanswers]) hp sent ?_ ?_
      · simp [Tally.add, Turn.returned?, returned]
      · simp [Tally.add, Turn.returned?, returned]

theorem underway_editing {user path : Text} {s : Session} (answers : Located y.answers path)
    (sent : y.sent = purpose.opening path) (returned : y.returned = [])
    (boxesSince : y.boxesSince = []) (hm : Moves size (editor user path purpose s) e log next) :
    ∃ ph, next = some ph ∧
      Underway purpose (y.add ⟨before, editor user path purpose s, e, log, next⟩) ph := by
  cases hm with
  | edit hs s' =>
    refine ⟨editor user path purpose s', rfl, ?_⟩
    have hidle : Turn.returned? ⟨before, editor user path purpose s, e, [],
        some (editor user path purpose s')⟩ = none := hs
    rw [Tally.add_idle rfl rfl hidle rfl fun _ => boxesSince]
    exact .editing answers sent returned boxesSince
  | @close user path purpose s s' exit e log n hs hc =>
    obtain ⟨hcommands, hcancelled⟩ := closes_spec hc
    refine ⟨_, rfl, .told ⟨path, s', exit, n, ?_, ?_, ?_, ?_, hcancelled⟩⟩
    · simpa [Tally.add, Turn.answer?] using answers
    · simpa [Tally.add, sent] using hcommands
    · simp [Tally.add, Turn.returned?, returned, hs]
    · simp [Tally.add, Turn.returned?, Turn.box?, returned, boxesSince, hs]

/-- A turn at a box adds nothing: the box stays, or what comes behind it. -/
theorem underway_box {n : Notice} {after : Next} (hsince : y.returned = [] → y.boxesSince = [])
    (stay : Underway purpose y (notice n after))
    (leave : ∀ ph' ∈ ofNext size after, Underway purpose y ph')
    (hafter : (ofNext size after).isSome) (hm : Moves size (notice n after) e log next) :
    ∃ ph, next = some ph ∧
      Underway purpose (y.add ⟨before, notice n after, e, log, next⟩) ph := by
  have idle : ∀ next, y.add ⟨before, notice n after, e, [], next⟩ = y := fun next =>
    Tally.add_idle rfl rfl rfl rfl hsince
  cases hm with
  | wait => exact ⟨_, rfl, (idle _).symm ▸ stay⟩
  | dismiss =>
    obtain ⟨ph', hph'⟩ := Option.isSome_iff_exists.1 hafter
    exact ⟨ph', hph', (idle _).symm ▸ leave ph' hph'⟩

/-- One turn takes an errand on, as long as it is not at the menu. -/
theorem underway_move (h : Underway purpose y ph) (hm : Moves size ph e log next)
    (hmenu : ∀ user m, ph ≠ menu user m) :
    ∃ ph', next = some ph' ∧ Underway purpose (y.add ⟨before, ph, e, log, next⟩) ph' := by
  cases h with
  | unnamed => exact absurd rfl (hmenu _ _)
  | home => exact absurd rfl (hmenu _ _)
  | asking answers sent returned boxes boxesSince =>
    exact underway_asking answers sent returned boxes boxesSince hm
  | editing answers sent returned boxesSince =>
    exact underway_editing answers sent returned boxesSince hm
  | warned hp answers sent returned boxesSince =>
    subst hp
    refine underway_box (fun _ => boxesSince) (.warned rfl answers sent returned boxesSince) ?_ rfl hm
    rintro ph' ⟨⟩
    exact .editing answers sent returned boxesSince
  | told settled =>
    have hsince : y.returned = [] → y.boxesSince = [] := fun h => absurd h settled.returned_ne_nil
    refine underway_box hsince (.told settled) ?_ rfl hm
    rintro ph' ⟨⟩
    exact .home settled

end Moves

/-! ### Whole errands -/

variable {purpose : Purpose} {us : List Turn}

theorem underway_chosen {u : Turn} (hu : u.Happens) (hc : u.chosen? = some purpose.entry) :
    ∃ ph, u.next = some ph ∧ Underway purpose (({} : Tally).add u) ph := by
  obtain ⟨before, ph, e, log, next⟩ := u
  have hmoves := hu.moves
  dsimp only at hmoves
  cases ph with
  | menu user m =>
    cases hmoves with
    | select hnone m' => cases hnone.symm.trans hc
    | @choose user m e entry log ph he hp =>
      obtain rfl : entry = purpose.entry := Option.some.inj (he.symm.trans hc)
      have hlocates := purpose.form_locates
      generalize purpose.entry.form = f at hlocates hp
      cases hp with
      | ask q next => exact ⟨_, rfl, .asking hlocates rfl rfl rfl rfl⟩
      | perform hp =>
        obtain ⟨path, ⟨dir, name, hbad, -⟩, -⟩ := hlocates
        cases hbad
  | _ => cases hc

theorem underway_foldl {y : Tally} {ph : Phase} (h : Underway purpose y ph)
    (hus : Linked size (some ph) us) :
    ∃ ph', Underway purpose ((us.takeWhile fun v => !v.isMenu).foldl Tally.add y) ph' := by
  induction us generalizing size y ph with
  | nil => exact ⟨ph, h⟩
  | cons u us ih =>
    obtain ⟨hph, -, hu, hus⟩ := hus
    obtain rfl := Option.some.inj hph
    rw [List.takeWhile_cons]
    cases hmenu : u.isMenu with
    | true => exact ⟨u.phase, h⟩
    | false =>
      have hnot : ∀ user m, u.phase ≠ menu user m := by
        intro user m hph
        simp [Turn.isMenu, hph] at hmenu
      obtain ⟨ph', hnext, h'⟩ := underway_move h hu.moves hnot
      rw [hnext] at hus
      exact ih h' hus

theorem underway_of_mem_errands {ph : Option Phase} (hus : Linked size ph us) {ts : List Turn}
    (h : (purpose.entry, ts) ∈ errands us) : ∃ ph', Underway purpose (tally ts) ph' := by
  induction us generalizing size ph with
  | nil => cases h
  | cons u us ih =>
    obtain ⟨-, -, hu, hus⟩ := hus
    unfold errands at h
    split at h
    · next entry hc =>
      rcases List.mem_cons.1 h with h | h
      · obtain ⟨rfl, rfl⟩ := Prod.mk.inj h
        obtain ⟨ph', hnext, h'⟩ := underway_chosen hu hc
        rw [hnext] at hus
        exact underway_foldl h' hus
      · exact ih hus h
    · exact ih hus h

/-- At whatever point of an errand its editor returns, what was sent and told is settled by that. -/
theorem underway_returned {y : Tally} {ph : Phase} (h : Underway purpose y ph) {s : Session}
    {exit : Exit} (hs : (s, exit) ∈ y.returned) :
    ∃ dir name n, y.answers = [dir, name] ∧ name ≠ [] ∧
      y.sent = purpose.commands (Path.file (Path.normalize dir) name) s.buffer.flatten exit ∧
      y.boxesSince = [n] ∧ (n = .editCancelled ↔ exit = .cancelled) := by
  have settled : Settled purpose y := by
    cases h with
    | told settled => exact settled
    | home settled => exact settled
    | asking answers sent returned | unnamed answers sent returned | editing answers sent returned
    | warned hp answers sent returned => simp [returned] at hs
  obtain ⟨path, s', exit', n, hlocated, hsent, hreturned, hsince, hn⟩ := settled
  obtain ⟨dir, name, hanswers, hname, rfl⟩ := hlocated
  rw [hreturned] at hs
  obtain ⟨rfl, rfl⟩ := Prod.mk.inj (List.mem_singleton.1 hs)
  exact ⟨dir, name, n, hanswers, hname, hsent, hsince, hn⟩

theorem underway_unnamed {y : Tally} {ph : Phase} (h : Underway purpose y ph) {dir : Text}
    (hy : y.answers = [dir, []]) : y.sent = [] ∧ y.boxes = [] := by
  have named : ∀ {path : Text}, ¬Located y.answers path := by
    rintro path ⟨dir', name, hanswers, hname, -⟩
    rw [hy] at hanswers
    obtain ⟨-, rfl⟩ : dir = dir' ∧ [] = name := by simpa using hanswers
    exact hname rfl
  cases h with
  | asking answers sent returned boxes => exact ⟨sent, boxes⟩
  | unnamed answers sent returned boxes => exact ⟨sent, boxes⟩
  | warned hp answers => exact absurd answers named
  | editing answers => exact absurd answers named
  | told settled | home settled =>
    obtain ⟨path, s, exit, n, answers, -⟩ := settled
    exact absurd answers named

/-- Every errand of every run keeps to this: once its editor returns with a session, it has sent
exactly what the end of that session calls for, for the file that was named, and it tells so in one
box, which is the one for a cancelled edit exactly if the edit was cancelled. If no file is named it
sends nothing and tells nothing. -/
theorem runProgram_errands {σ : Type} (svc : Service (StateM σ)) (t : Terminal) (s : σ) :
    let r := (runProgram svc.logged t .login).run.run (s, [])
    (runProgram svc t .login).run.run s = (r.1, r.2.1) ∧
      ∃ us, Records t.size .login (t.events.filter Event.isUsed) r.2.2 r.1 us ∧
        ∀ (purpose : Purpose) (ts : List Turn), (purpose.entry, ts) ∈ errands us →
          (∀ s exit, (s, exit) ∈ (tally ts).returned → ∃ dir name n,
            (tally ts).answers = [dir, name] ∧ name ≠ [] ∧
              (tally ts).sent =
                purpose.commands (Path.file (Path.normalize dir) name) s.buffer.flatten exit ∧
              (tally ts).boxesSince = [n] ∧ (n = .editCancelled ↔ exit = .cancelled)) ∧
            ∀ dir, (tally ts).answers = [dir, []] →
              (tally ts).sent = [] ∧ (tally ts).boxes = [] := by
  obtain ⟨hplain, us, hus⟩ := runProgram_logged svc t .login s
  refine ⟨hplain, us, hus, fun purpose ts hts => ?_⟩
  obtain ⟨ph, h⟩ := underway_of_mem_errands hus.linked hts
  exact ⟨fun _ _ hs => underway_returned h hs, fun _ hy => underway_unnamed h hy⟩

def obliging : Service (StateM Unit) := fun _ => pure (.ok (.success none))

/-- A user logs in, leaves a new file without a name, and then creates one in the root with one
character. -/
def creating : Terminal where
  size := (80, 24)
  events := keys.map fun code => .key { code }
where
  keys : List KeyCode :=
    [.char 'a', .enter, .char 'b', .enter, .enter, .down, .down, .down, .down, .enter, .enter,
      .enter, .down, .down, .down, .down, .enter, .enter, .char 'x', .enter, .char 'h', .enter]

theorem runProgram_errands_creating :
    let r := (runProgram obliging.logged creating .login).run.run ((), [])
    ∃ us, Records creating.size .login (creating.events.filter Event.isUsed) r.2.2 r.1 us ∧
      (∃ ts, (Entry.createFile, ts) ∈ errands us ∧ (tally ts).answers = [[], []] ∧
        (tally ts).sent = [] ∧ (tally ts).boxes = []) ∧
      ∃ ts s, (Entry.createFile, ts) ∈ errands us ∧ (s, .saved) ∈ (tally ts).returned ∧
        ∃ dir name n, (tally ts).answers = [dir, name] ∧ name ≠ [] ∧
          (tally ts).sent = [.createFile (Path.file (Path.normalize dir) name) s.buffer.flatten] ∧
          (tally ts).boxesSince = [n] ∧ (n = .editCancelled ↔ Exit.saved = .cancelled) := by
  obtain ⟨-, us, hus, h⟩ := runProgram_errands obliging creating ()
  have hreplay := hus.eq_replay (by decide +kernel)
  -- One errand ends with a blank name, and in the other an editor returns.
  have herrands : (errands us).map (fun e =>
      (e.1, (tally e.2).answers, (tally e.2).returned.map Prod.snd)) =
      [(.createFile, [[], []], []), (.createFile, [[], ['x']], [.saved])] := by
    rw [hreplay]
    decide +kernel
  obtain ⟨⟨_, ts⟩, rest, hus', hunnamed, hrest⟩ := List.map_eq_cons_iff.1 herrands
  obtain ⟨⟨_, ts'⟩, hrest', hnamed⟩ := List.map_eq_singleton_iff.1 hrest
  obtain ⟨rfl, hanswers, -⟩ := by simpa only [Prod.mk.injEq] using hunnamed
  obtain ⟨rfl, -, hreturned⟩ := by simpa only [Prod.mk.injEq] using hnamed
  obtain ⟨⟨s, _⟩, hs, rfl⟩ := List.map_eq_singleton_iff.1 hreturned
  subst hrest'
  have hts : (Entry.createFile, ts) ∈ errands us := hus' ▸ List.mem_cons_self
  have hts' : (Entry.createFile, ts') ∈ errands us :=
    hus' ▸ List.mem_cons_of_mem _ (List.mem_singleton_self _)
  have hmem : (s, .saved) ∈ (tally ts').returned := hs ▸ List.mem_singleton_self _
  exact ⟨us, hus, ⟨ts, hts, hanswers, (h .create ts hts).2 [] hanswers⟩,
    ts', s, hts', hmem, (h .create ts' hts').1 s .saved hmem⟩

example : ((runProgram obliging.logged creating .login).run.run ((), [])).2.2.map (·.1) =
    [.login ['a'] ['b'], .createFile "/x".toList ['h']] := by decide +kernel

end StorageClient
