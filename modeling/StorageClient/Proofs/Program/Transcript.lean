import StorageClient.Proofs.Program.Answers
import StorageClient.Proofs.Program.OneLine
import StorageClient.Proofs.Wire.Pairing

/-!
What a run writes to its connection. The run is repeated over a connection that also keeps a list of
the commands handed to it and their outcomes; nothing else about it changes.
-/

namespace StorageClient

namespace Channel

theorem readLine_ne_multiLine (ch : Channel) : ch.readLine.1 ≠ .error .multiLine := by
  unfold readLine
  dsimp only
  split
  · nofun
  · split <;> nofun

theorem send_ne_multiLine (ch : Channel) {line : Text} (h : '\n' ∉ line) :
    (ch.send line).1 ≠ .error .multiLine := by
  rw [send, if_neg h]
  split
  · simp
  · exact readLine_ne_multiLine _

end Channel

/-! ### Transcripts -/

structure Transcript where
  channel : Channel
  log : List (Command × Outcome) := []

namespace Transcript

def service : Service (StateM Transcript) := fun c s =>
  let (o, ch) := s.channel.send c.line
  (o, ⟨ch, s.log ++ [(c, o)]⟩)

def lines (s : Transcript) : Text := s.log.flatMap fun e => e.1.line ++ ['\n']

/-- No command is refused for its line ends. What has been written since `ch`, if writing works, are
the lines of the commands and nothing else. -/
structure Framed (ch : Channel) (s : Transcript) : Prop where
  oneLine : ∀ e ∈ s.log, e.1.OneLine ∧ e.2 ≠ .error .multiLine
  sent : ch.writesLeft = none →
    s.channel.writesLeft = none ∧ s.channel.sent = ch.sent ++ s.lines

theorem framed_start (ch : Channel) : Framed ch { channel := ch } where
  oneLine := nofun
  sent := fun hw => ⟨hw, (List.append_nil ch.sent).symm⟩

theorem Framed.service {ch : Channel} {s : Transcript} (h : s.Framed ch) {c : Command}
    (hc : c.OneLine) : Framed ch ((service c).run s).2 where
  oneLine := by
    intro e he
    rcases List.mem_append.1 he with he | he
    · exact h.oneLine e he
    · obtain rfl := List.mem_singleton.1 he
      exact ⟨hc, s.channel.send_ne_multiLine hc⟩
  sent := by
    intro hw
    obtain ⟨hleft, hsent⟩ := h.sent hw
    obtain ⟨hleft', hsent'⟩ := Channel.send_of_writes hc hleft
    refine ⟨hleft', hsent'.trans ?_⟩
    have hlines : lines ((Transcript.service c).run s).2 = s.lines ++ (c.line ++ ['\n']) := by
      simp [lines, Transcript.service, StateT.run]
    rw [hlines, hsent, List.append_assoc]

end Transcript

def runTranscribed (t : Terminal) : ExceptT Fault (StateM Transcript) Run :=
  runProgram Transcript.service t .login

theorem runTranscribed_channel (t : Terminal) (s : Transcript) :
    (runConnected t).run.run s.channel =
      (((runTranscribed t).run.run s).1, ((runTranscribed t).run.run s).2.channel) := by
  rw [runConnected, runTranscribed, ← Dialogue.answerT_runProgram Channel.service,
    ← Dialogue.answerT_runProgram Transcript.service]
  exact Dialogue.run_answer_project (f := Transcript.channel) (fun _ _ => rfl) _ s

theorem runTranscribed_framed (t : Terminal) (ch : Channel) :
    Transcript.Framed ch ((runTranscribed t).run.run { channel := ch }).2 := by
  have hasked := runProgram_sat t (show Phase.login.OneLine from List.not_mem_nil)
  rw [runTranscribed, ← Dialogue.answerT_runProgram Transcript.service]
  exact (hasked.run_answer (fun _ _ hc hs => hs.service hc) (Transcript.framed_start ch)).1

/-- A run over a connection is the run that keeps a transcript, without it. -/
theorem runConnected_framed (t : Terminal) (ch : Channel) :
    let r := (runTranscribed t).run.run { channel := ch }
    (runConnected t).run.run ch = (r.1, r.2.channel) ∧
      (∀ e ∈ r.2.log, '\n' ∉ e.1.line ∧ e.2 ≠ .error .multiLine) ∧
      (ch.writesLeft = none →
        r.2.channel.sent = ch.sent ++ r.2.log.flatMap fun e => e.1.line ++ ['\n']) := by
  have hframed := runTranscribed_framed t ch
  exact ⟨runTranscribed_channel t { channel := ch }, hframed.oneLine, fun hw => (hframed.sent hw).2⟩

def shortVisit : Terminal where
  size := (80, 24)
  events := [.key { code := .char 'a' }, .key { code := .enter }, .key { code := .char 'b' },
    .key { code := .enter }]

theorem runConnected_framed_shortVisit :
    ({ incoming := [] } : Channel).writesLeft = none ∧
      let r := (runTranscribed shortVisit).run.run { channel := { incoming := [] } }
      r.2.log.map (·.1) = [.login ['a'] ['b']] ∧
        r.2.channel.sent = r.2.log.flatMap fun e => e.1.line ++ ['\n'] :=
  ⟨rfl, rfl, (runConnected_framed shortVisit { incoming := [] }).2.2 rfl⟩

end StorageClient
