import StorageClient.Proofs.Program.OneLine
import StorageClient.Proofs.Program.Record
import StorageClient.Proofs.Wire.Distinct
import StorageClient.Proofs.Wire.Pairing

/-!
Logins come first, and a logout comes last. A run is before its login, inside a session, or about to
leave, and its phases say which. The lines on the wire are in the same order, since no argument
comes before the first word of its line.
-/

namespace StorageClient

open Dialogue

variable {α β : Type} {size : Nat × Nat}

/-! ### The order of commands -/

/-- First come logins that are not granted. If one is granted, no other follows it, and only the
last command may be a logout. -/
inductive LoginFirst (login logout : α → Prop) : List (α × Outcome) → Prop
  | nil : LoginFirst login logout []
  | refused {a : α} {o : Outcome} {log : List (α × Outcome)} (ha : login a) (ho : ¬Granted o)
      (rest : LoginFirst login logout log) : LoginFirst login logout ((a, o) :: log)
  | granted {a : α} {o : Outcome} {log : List (α × Outcome)} (ha : login a) (ho : Granted o)
      (noLogin : ∀ e ∈ log, ¬login e.1) (logoutLast : ∀ e ∈ log.dropLast, ¬logout e.1) :
      LoginFirst login logout ((a, o) :: log)

theorem mem_dropLast_append {front back : List α} {a : α} (h : a ∈ (front ++ back).dropLast) :
    a ∈ front ∨ a ∈ back.dropLast := by
  rw [List.dropLast_append] at h
  split at h
  · exact .inl (List.dropLast_subset _ h)
  · exact List.mem_append.1 h

theorem mem_dropLast_of_filter {keep : α → Bool} {l : List α} {a : α}
    (h : a ∈ (l.filter keep).dropLast) : a ∈ l.dropLast := by
  rcases l.eq_nil_or_concat with rfl | ⟨init, b, rfl⟩
  · exact h
  · rw [List.concat_eq_append] at h ⊢
    rw [List.filter_append] at h
    rw [List.dropLast_concat]
    have hlast : ([b].filter keep).dropLast = [] := by cases hb : keep b <;> simp [hb]
    rcases mem_dropLast_append h with h | h
    · exact (List.mem_filter.1 h).1
    · simp [hlast] at h

/-- Commands that are left out or told by other signs keep their order. A granted login has to stay,
for what follows it would be no session otherwise. -/
theorem LoginFirst.filter_map {login logout : α → Prop} {login' logout' : β → Prop} {f : α → β}
    {keep : Outcome → Bool} (hlogin : ∀ a, login' (f a) ↔ login a)
    (hlogout : ∀ a, logout' (f a) ↔ logout a) (hkeep : ∀ o, Granted o → keep o = true)
    {log : List (α × Outcome)} (h : LoginFirst login logout log) :
    LoginFirst login' logout' ((log.filter fun e => keep e.2).map fun e => (f e.1, e.2)) := by
  induction h with
  | nil => exact .nil
  | @refused a o log ha ho rest ih =>
    rw [List.filter_cons]
    split
    · exact .refused ((hlogin a).2 ha) ho ih
    · exact ih
  | @granted a o log ha ho noLogin logoutLast =>
    rw [List.filter_cons, if_pos (hkeep o ho), List.map_cons]
    refine .granted ((hlogin a).2 ha) ho ?_ ?_
    · intro e' he'
      obtain ⟨e, he, rfl⟩ := List.mem_map.1 he'
      rw [hlogin]
      exact noLogin e (List.mem_filter.1 he).1
    · intro e' he'
      rw [← List.map_dropLast] at he'
      obtain ⟨e, he, rfl⟩ := List.mem_map.1 he'
      rw [hlogout]
      exact logoutLast e (mem_dropLast_of_filter he)

/-! ### Stages -/

def Command.IsLogin (c : Command) : Prop := ∃ user password, c = .login user password

def Command.Inner (c : Command) : Prop := ¬c.IsLogin ∧ c ≠ .logout

def Form.All (Q : α → Prop) : Form α → Prop
  | .done a => Q a
  | .ask _ next => ∀ t, (next t).All Q

def Task.Inner (task : Task) : Prop := ∀ c ∈ task.command?, c.Inner

theorem Entry.form_all (entry : Entry) : entry.form.All Task.Inner := by
  have inner : ∀ {task : Task} {c : Command}, task.command? = some c →
      (∀ user password, c ≠ .login user password) → c ≠ .logout → task.Inner := by
    rintro task c h hlogin hlogout c' hc'
    obtain rfl : c = c' := Option.some.inj (h.symm.trans hc')
    exact ⟨fun ⟨user, password, heq⟩ => hlogin user password heq, hlogout⟩
  cases entry with
  | listUsers | sessionInfo => exact inner rfl nofun nofun
  | logout => nofun
  | deleteUser | listFiles | createDirectory | deleteDirectory =>
    exact fun _ => inner rfl nofun nofun
  | createUser | deleteFile | viewMetadata => exact fun _ _ => inner rfl nofun nofun
  | createFile | readFile | editFile => exact fun _ _ => nofun
  | truncateFile | setPermission => exact fun _ _ _ => inner rfl nofun nofun
  | renameFile => exact fun _ _ _ _ => inner rfl nofun nofun

namespace Phase

def Before : Phase → Prop
  | username _ | password _ _ | notice _ .login => True
  | _ => False

/-- A user is logged in, and no form comes to a login or a logout by request. -/
def Inside : Phase → Prop
  | menu _ _ | editor _ _ _ _ | reader _ _ _ | notice _ (.menu _) | notice _ (.edit _ _) => True
  | form _ _ _ _ next => ∀ t, (next t).All Task.Inner
  | _ => False

def Leaving : Phase → Prop
  | notice _ .leave => True
  | _ => False

variable {ph : Phase} {e : Event} {log : Log} {next : Option Phase}

theorem leaving_moves (hm : Moves size ph e log next) (h : ph.Leaving) :
    log = [] ∧ ∀ ph' ∈ next, ph'.Leaving := by
  cases hm with
  | wait n next e =>
    refine ⟨rfl, ?_⟩
    rintro _ ⟨⟩
    exact h
  | dismiss n next k =>
    cases next with
    | leave => exact ⟨rfl, nofun⟩
    | _ => exact h.elim
  | _ => exact h.elim

theorem inside_performs {user : Text} {task : Task} (hp : Performs size user task log ph)
    (h : task.Inner) :
    (∀ e ∈ log, e.1.Inner) ∧ ph.Inside ∨ ∃ o, log = [(.logout, o)] ∧ ph.Leaving := by
  have getFile : ∀ path o, ∀ e ∈ [(Command.getFile path, (o : Outcome))], e.1.Inner := by
    intro path o e he
    obtain rfl := List.mem_singleton.1 he
    exact ⟨nofun, nofun⟩
  cases hp with
  | tell hc o n =>
    refine .inl ⟨fun e he => ?_, trivial⟩
    obtain rfl := List.mem_singleton.1 he
    exact h _ hc
  | create path => exact .inl ⟨nofun, trivial⟩
  | read path o r => exact .inl ⟨getFile path o, trivial⟩
  | unread path o n => exact .inl ⟨getFile path o, trivial⟩
  | edit path o content => exact .inl ⟨getFile path o, trivial⟩
  | warn path o n => exact .inl ⟨getFile path o, trivial⟩
  | logout o n => exact .inr ⟨o, rfl, trivial⟩

theorem inside_proceeds {user : Text} {entry : Entry} {f : Form Task}
    (hp : Proceeds size user entry f log ph) (h : f.All Task.Inner) :
    (∀ e ∈ log, e.1.Inner) ∧ ph.Inside ∨ ∃ o, log = [(.logout, o)] ∧ ph.Leaving := by
  cases hp with
  | ask q next => exact .inl ⟨nofun, h⟩
  | perform hp => exact inside_performs hp h

theorem inside_closes {path : Text} {purpose : Purpose} {text : Option Text} {n : Notice}
    (hc : Closes path purpose text log n) : ∀ e ∈ log, e.1.Inner := by
  cases hc with
  | cancel => exact nofun
  | create t o hn =>
    intro e he
    obtain rfl := List.mem_singleton.1 he
    exact ⟨nofun, nofun⟩
  | replace t o o' hn =>
    intro e he
    rcases List.mem_cons.1 he with rfl | he
    · exact ⟨nofun, nofun⟩
    · obtain rfl := List.mem_singleton.1 he
      exact ⟨nofun, nofun⟩

/-- In a session neither a login nor a logout is sent, or a logout that ends it. -/
theorem inside_moves (hm : Moves size ph e log next) (h : ph.Inside) :
    (∀ e ∈ log, e.1.Inner) ∧ (∀ ph' ∈ next, ph'.Inside) ∨
      ∃ o, log = [(.logout, o)] ∧ ∀ ph' ∈ next, ph'.Leaving := by
  have stay : ∀ {ph : Phase}, ph.Inside → ∀ ph' ∈ some ph, ph'.Inside := by
    rintro ph h _ ⟨⟩
    exact h
  have proceed : ∀ {log : Log} {ph : Phase},
      ((∀ e ∈ log, e.1.Inner) ∧ ph.Inside ∨ ∃ o, log = [(.logout, o)] ∧ ph.Leaving) →
      (∀ e ∈ log, e.1.Inner) ∧ (∀ ph' ∈ some ph, ph'.Inside) ∨
        ∃ o, log = [(.logout, o)] ∧ ∀ ph' ∈ some ph, ph'.Leaving := by
    rintro log ph (⟨hlog, hph⟩ | ⟨o, hlog, hph⟩)
    · exact .inl ⟨hlog, stay hph⟩
    · refine .inr ⟨o, hlog, ?_⟩
      rintro _ ⟨⟩
      exact hph
  cases hm with
  | wait n next e => exact .inl ⟨nofun, stay h⟩
  | dismiss n next k =>
    cases next with
    | menu user => exact .inl ⟨nofun, stay trivial⟩
    | edit user path => exact .inl ⟨nofun, stay trivial⟩
    | _ => exact h.elim
  | select hc m' => exact .inl ⟨nofun, stay trivial⟩
  | @choose user m e entry log ph hc hp => exact proceed (inside_proceeds hp entry.form_all)
  | typeAnswer ha p' => exact .inl ⟨nofun, stay h⟩
  | giveUp ha hq => exact .inl ⟨nofun, stay trivial⟩
  | @fill user t entry q p next e log ph ha ht hp => exact proceed (inside_proceeds hp (h t))
  | edit he s' => exact .inl ⟨nofun, stay trivial⟩
  | close he hc => exact .inl ⟨inside_closes hc, stay trivial⟩
  | scroll user path r r' e => exact .inl ⟨nofun, stay trivial⟩
  | shut user path r e => exact .inl ⟨nofun, stay trivial⟩
  | _ => exact h.elim

/-- Before a session nothing is sent but logins, and one that is granted begins the session. -/
theorem before_moves (hm : Moves size ph e log next) (h : ph.Before) :
    log = [] ∧ (∀ ph' ∈ next, ph'.Before) ∨
      ∃ user password o, log = [(.login user password, o)] ∧
        (¬Granted o ∧ (∀ ph' ∈ next, ph'.Before) ∨ Granted o ∧ ∀ ph' ∈ next, ph'.Inside) := by
  have stay : ∀ {ph : Phase}, ph.Before → ∀ ph' ∈ some ph, ph'.Before := by
    rintro ph h _ ⟨⟩
    exact h
  cases hm with
  | typeName ha p' => exact .inl ⟨rfl, stay trivial⟩
  | name ha => exact .inl ⟨rfl, stay trivial⟩
  | typePassword ha p' => exact .inl ⟨rfl, stay trivial⟩
  | quit ha => exact .inl ⟨rfl, nofun⟩
  | enter ha hne ho n =>
    refine .inr ⟨_, _, _, rfl, .inr ⟨ho, ?_⟩⟩
    rintro _ ⟨⟩
    trivial
  | refuse ha hne ho n => exact .inr ⟨_, _, _, rfl, .inl ⟨ho, stay trivial⟩⟩
  | wait n next e => exact .inl ⟨rfl, stay h⟩
  | dismiss n next k =>
    cases next with
    | login => exact .inl ⟨rfl, stay trivial⟩
    | _ => exact h.elim
  | _ => exact h.elim

theorem moves_blank {p : Prompt} (hm : Moves size (password [] p) e log next)
    (h : p.answer? e = some []) : log = [] ∧ next = none := by
  cases hm with
  | typePassword ha p' => cases h.symm.trans ha
  | quit ha => exact ⟨rfl, rfl⟩
  | enter ha hne ho n => exact absurd ⟨rfl, (Option.some.inj (h.symm.trans ha)).symm⟩ hne
  | refuse ha hne ho n => exact absurd ⟨rfl, (Option.some.inj (h.symm.trans ha)).symm⟩ hne

end Phase

/-! ### Turns in a row -/

variable {ph : Option Phase} {us : List Turn}

theorem leaving_linked (h : Linked size ph us) (hph : ∀ ph' ∈ ph, ph'.Leaving) :
    us.flatMap Turn.log = [] := by
  induction us generalizing size ph with
  | nil => rfl
  | cons u us ih =>
    obtain ⟨rfl, -, hu, hus⟩ := h
    obtain ⟨hlog, hnext⟩ := Phase.leaving_moves hu.moves (hph _ rfl)
    rw [List.flatMap_cons, hlog, ih hus hnext, List.append_nil]

theorem inside_linked (h : Linked size ph us) (hph : ∀ ph' ∈ ph, ph'.Inside) :
    (∀ e ∈ us.flatMap Turn.log, ¬e.1.IsLogin) ∧
      ∀ e ∈ (us.flatMap Turn.log).dropLast, e.1 ≠ .logout := by
  induction us generalizing size ph with
  | nil => exact ⟨nofun, nofun⟩
  | cons u us ih =>
    obtain ⟨rfl, -, hu, hus⟩ := h
    rw [List.flatMap_cons]
    rcases Phase.inside_moves hu.moves (hph _ rfl) with ⟨hlog, hnext⟩ | ⟨o, hlog, hnext⟩
    · obtain ⟨hlogin, hlogout⟩ := ih hus hnext
      refine ⟨fun e he => ?_, fun e he => ?_⟩
      · exact (List.mem_append.1 he).elim (fun he => (hlog e he).1) (hlogin e)
      · exact (mem_dropLast_append he).elim (fun he => (hlog e he).2) (hlogout e)
    · -- The logout is the last command, since nothing is sent on the way out.
      rw [hlog, leaving_linked hus hnext, List.append_nil]
      refine ⟨fun e he => ?_, nofun⟩
      obtain rfl := List.mem_singleton.1 he
      exact nofun

theorem before_linked (h : Linked size ph us) (hph : ∀ ph' ∈ ph, ph'.Before) :
    LoginFirst Command.IsLogin (· = .logout) (us.flatMap Turn.log) := by
  induction us generalizing size ph with
  | nil => exact .nil
  | cons u us ih =>
    obtain ⟨rfl, -, hu, hus⟩ := h
    rw [List.flatMap_cons]
    rcases Phase.before_moves hu.moves (hph _ rfl) with
      ⟨hlog, hnext⟩ | ⟨user, password, o, hlog, ⟨ho, hnext⟩ | ⟨ho, hnext⟩⟩
    · rw [hlog, List.nil_append]
      exact ih hus hnext
    · rw [hlog]
      exact .refused ⟨user, password, rfl⟩ ho (ih hus hnext)
    · obtain ⟨hlogin, hlogout⟩ := inside_linked hus hnext
      rw [hlog]
      exact .granted ⟨user, password, rfl⟩ ho hlogin hlogout

/-! ### Lines on the wire -/

/-- Whether the line of a command was written, whatever came of it then. -/
def isWritten : Outcome → Bool
  | .error .multiLine | .error (.send _) => false
  | _ => true

theorem Channel.readLine_isWritten (ch : Channel) : isWritten ch.readLine.1 = true := by
  unfold readLine
  dsimp only
  split
  · rfl
  · split <;> rfl

theorem Channel.sent_send (ch : Channel) (line : Text) :
    (ch.send line).2.sent =
      ch.sent ++ if isWritten (ch.send line).1 then line ++ ['\n'] else [] := by
  by_cases h : '\n' ∈ line
  · rw [Channel.send_of_newline_mem ch h]
    exact (List.append_nil ch.sent).symm
  · rw [send, if_neg h]
    unfold write
    split
    · next hnone =>
      split at hnone
      · exact (List.append_nil ch.sent).symm
      · cases hnone
    · next ch' hsome =>
      split at hsome
      · cases hsome
      · obtain rfl := Option.some.inj hsome
        rw [Channel.readLine_isWritten, Channel.readLine_snd, if_pos rfl]
        exact List.append_assoc ch.sent line ['\n']

def written (log : Log) : Log := log.filter fun e => isWritten e.2

structure Sent (ch : Channel) (s : Channel × Log) : Prop where
  oneLine : ∀ e ∈ s.2, e.1.OneLine
  sent : s.1.sent = ch.sent ++ (written s.2).flatMap fun e => e.1.line ++ ['\n']

theorem Sent.service {ch : Channel} {s : Channel × Log} (h : Sent ch s) {c : Command}
    (hc : c.OneLine) : Sent ch ((Channel.service.logged c).run s).2 where
  oneLine := by
    intro e he
    rcases List.mem_append.1 he with he | he
    · exact h.oneLine e he
    · obtain rfl := List.mem_singleton.1 he
      exact hc
  sent := by
    have hsent := s.1.sent_send c.line
    have hlog : written ((Channel.service.logged c).run s).2.2 = written s.2 ++
        if isWritten (s.1.send c.line).1 then [(c, (s.1.send c.line).1)] else [] := by
      refine (List.filter_append ..).trans (congrArg _ ?_)
      exact List.filter_cons
    rw [hlog, List.flatMap_append, ← List.append_assoc, ← h.sent]
    refine hsent.trans ?_
    split
    · exact congrArg _ (List.flatMap_singleton _ _).symm
    · rfl

theorem splitOn_lines {ls : List Text} (h : ∀ l ∈ ls, '\n' ∉ l) :
    (ls.flatMap (· ++ ['\n'])).splitOn '\n' = ls ++ [[]] := by
  induction ls with
  | nil => exact List.splitOn_nil '\n'
  | cons l ls ih =>
    obtain ⟨hl, hls⟩ := List.forall_mem_cons.1 h
    rw [List.flatMap_cons, List.append_assoc, List.singleton_append,
      List.splitOn_append_cons_self_of_not_mem hl, ih hls, List.cons_append]

theorem Command.word_eq_login_iff (c : Command) : c.word = "login".toList ↔ c.IsLogin := by
  constructor
  · intro h
    have hkind : c.ctorIdx = (login [] []).ctorIdx := ctorIdx_eq_of_word_eq h
    cases c with
    | login user password => exact ⟨user, password, rfl⟩
    | _ => exact absurd hkind (of_decide_eq_false rfl)
  · rintro ⟨user, password, rfl⟩
    rfl

theorem Command.word_eq_logout_iff (c : Command) : c.word = "logout".toList ↔ c = .logout := by
  constructor
  · intro h
    have hkind : c.ctorIdx = logout.ctorIdx := ctorIdx_eq_of_word_eq h
    cases c with
    | logout => rfl
    | _ => exact absurd hkind (of_decide_eq_false rfl)
  · rintro rfl
    rfl

theorem runProgram_sent (t : Terminal) (ch : Channel) :
    Sent ch ((runProgram Channel.service.logged t .login).run.run (ch, [])).2 := by
  have hasked := runProgram_sat t (show Phase.login.OneLine from List.not_mem_nil)
  have hstart : Sent ch (ch, []) := ⟨nofun, (List.append_nil ch.sent).symm⟩
  rw [← answerT_runProgram Channel.service.logged]
  exact (hasked.run_answer (fun _ _ hc hs => hs.service hc) hstart).1

/-- Whatever is typed and whatever is replied, a run logs in before all else and out after all else,
and it ends with nothing sent if name and password are left blank. Its lines on the wire say the
same in their first words. -/
theorem runProgram_loginFirst (t : Terminal) :
    (∀ {σ : Type} (svc : Service (StateM σ)) (s : σ),
      let r := (runProgram svc.logged t .login).run.run (s, [])
      (runProgram svc t .login).run.run s = (r.1, r.2.1) ∧
        LoginFirst Command.IsLogin (· = .logout) r.2.2 ∧
        ∃ us, Records t.size .login (t.events.filter Event.isUsed) r.2.2 r.1 us ∧
          ∀ u ∈ us, ∀ p, u.phase = .password [] p → p.answer? u.event = some [] →
            u.log = [] ∧ us.getLast? = some u ∧ ∃ run, r.1 = .ok run ∧ run.ending = .finished) ∧
      ∀ ch : Channel,
        let r := (runProgram Channel.service.logged t .login).run.run (ch, [])
        ∃ wire, r.2.1.sent = ch.sent ++ wire ∧
          wire.splitOn '\n' = (written r.2.2).map (fun e => e.1.line) ++ [[]] ∧
          LoginFirst (· = "login".toList) (· = "logout".toList)
            ((written r.2.2).map fun e => (firstWord e.1.line, e.2)) := by
  have ordered : ∀ {σ : Type} (svc : Service (StateM σ)) (s : σ),
      LoginFirst Command.IsLogin (· = .logout)
        ((runProgram svc.logged t .login).run.run (s, [])).2.2 := by
    intro σ svc s
    obtain ⟨-, us, hus⟩ := runProgram_logged svc t .login s
    rw [hus.logged]
    refine before_linked hus.linked ?_
    rintro _ ⟨⟩
    trivial
  constructor
  · intro σ svc s
    obtain ⟨hplain, us, hus⟩ := runProgram_logged svc t .login s
    refine ⟨hplain, ordered svc s, us, hus, fun u hu p hph hans => ?_⟩
    have hmoves := (happens_of_mem hus.linked hu).moves
    rw [hph] at hmoves
    obtain ⟨hlog, hnext⟩ := Phase.moves_blank hmoves hans
    exact ⟨hlog, getLast?_of_next_none hus.linked hu hnext, hus.finished.1 ⟨u, hu, hnext⟩⟩
  · intro ch r
    have hsent : Sent ch r.2 := runProgram_sent t ch
    refine ⟨_, hsent.sent, ?_, ?_⟩
    · have hlines : ∀ l ∈ (written r.2.2).map fun e => e.1.line, '\n' ∉ l := by
        intro l hl
        obtain ⟨e, he, rfl⟩ := List.mem_map.1 hl
        exact hsent.oneLine e (List.mem_filter.1 he).1
      have hsplit := splitOn_lines hlines
      rwa [List.flatMap_map] at hsplit
    · refine (ordered Channel.service ch).filter_map (f := fun c => firstWord c.line) (fun c => ?_)
        (fun c => ?_) ?_
      · rw [c.firstWord_line, c.word_eq_login_iff]
      · rw [c.firstWord_line, c.word_eq_logout_iff]
      · rintro o ⟨d, rfl⟩
        rfl

def anonymous : Terminal where
  size := (80, 24)
  events := [.key { code := .enter }, .key { code := .enter }]

def silent : Channel where
  incoming := []

theorem runProgram_loginFirst_anonymous :
    let r := (runProgram Channel.service.logged anonymous .login).run.run (silent, [])
    (∃ us, Records anonymous.size .login (anonymous.events.filter Event.isUsed) r.2.2 r.1 us ∧
      ∃ u ∈ us, ∃ p, u.phase = .password [] p ∧ p.answer? u.event = some [] ∧
        u.log = [] ∧ us.getLast? = some u ∧ ∃ run, r.1 = .ok run ∧ run.ending = .finished) ∧
      ∃ wire, r.2.1.sent = silent.sent ++ wire ∧ wire.splitOn '\n' = [[]] := by
  obtain ⟨hlogin, hwire⟩ := runProgram_loginFirst anonymous
  obtain ⟨-, -, us, hus, h⟩ := hlogin Channel.service silent
  obtain ⟨wire, hsent, hlines, -⟩ := hwire silent
  have hreplay := hus.eq_replay (by decide +kernel)
  have hpasswords : us.map (fun u => match u.phase with
      | .password user p => some (user, p.answer? u.event)
      | _ => none) = [none, some ([], some [])] := by
    rw [hreplay]
    decide +kernel
  obtain ⟨u, hu, hblank⟩ : ∃ u ∈ us, _ = some ([], some []) :=
    List.mem_map.1 (hpasswords ▸ List.mem_cons_of_mem _ (List.mem_singleton_self _))
  refine ⟨⟨us, hus, u, hu, ?_⟩, wire, hsent, hlines⟩
  split at hblank
  · next user p hp =>
    obtain ⟨rfl, hans⟩ := by simpa only [Option.some.injEq, Prod.mk.injEq] using hblank
    exact ⟨p, hp, hans, h u hu p hp hans⟩
  · cases hblank

end StorageClient
