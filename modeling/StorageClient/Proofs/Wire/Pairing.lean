import StorageClient.Proofs.Text.Decoding
import StorageClient.Proofs.Text.Trimming
import StorageClient.Wire.Channel

/-!
Which reply belongs to which command. Of the commands that are not refused, the first gets the
first line that the peer sends, the second the second, and so on; behind the last line every one of
them finds the connection closed. All are written, and a refused command changes nothing.
-/

namespace StorageClient

namespace Reply

theorem cut_append {t ends : Text} (h : ∀ c ∈ ends, c = '\r' ∨ c = '\n') :
    cut (t ++ ends) = cut t :=
  Text.dropEndWhile_append_of_forall fun c hc => by simpa using h c hc

theorem read_append_newline (t : Text) : read (t ++ ['\n']) = read t := by
  have hcut : cut (t ++ ['\n']) = cut t := cut_append (by simp)
  rw [read, read, hcut]

theorem mem_of_mem_cut {t : Text} {c : Char} (h : c ∈ cut t) : c ∈ t := by
  have hrev : c ∈ t.reverse.dropWhile fun c => c == '\r' || c == '\n' := by
    simpa [cut, Text.dropEndWhile] using h
  exact List.mem_reverse.1 ((List.dropWhile_sublist _).subset hrev)

theorem read_of_not_structured {t : Text} (h : structured? (cut t) = none) :
    read t = .success (some (cut t)) ∧ (cut t).getLast? ≠ some '\r' := by
  refine ⟨by rw [read, h, Option.getD_none], fun hlast => ?_⟩
  exact absurd (Text.of_getLast?_dropEndWhile hlast) (by decide)

end Reply

namespace Channel

/-! ### Lines of a stream -/

/-- The pieces of a stream between its newlines. What follows the last newline is one only if there
is anything. -/
def linesOf (bs : List UInt8) : List (List UInt8) :=
  if (bs.splitOn 10).getLast? = some [] then (bs.splitOn 10).dropLast else bs.splitOn 10

theorem linesOf_of_not_mem {l : List UInt8} (h : 10 ∉ l) :
    linesOf l = if l = [] then [] else [l] := by
  simp [linesOf, List.splitOn_eq_singleton h]

theorem linesOf_append_newline {l : List UInt8} (h : 10 ∉ l) (rest : List UInt8) :
    linesOf (l ++ 10 :: rest) = l :: linesOf rest := by
  obtain ⟨m, ms, hms⟩ := List.exists_cons_of_ne_nil (List.splitOn_ne_nil 10 rest)
  unfold linesOf
  rw [List.splitOn_append_cons_self_of_not_mem h, hms, List.getLast?_cons_cons]
  split <;> simp

theorem splitLine_spec (bs : List UInt8) :
    (∃ l rest, 10 ∉ l ∧ bs = l ++ 10 :: rest ∧ splitLine bs = (l ++ [10], rest)) ∨
      10 ∉ bs ∧ splitLine bs = (bs, []) := by
  induction bs with
  | nil => exact .inr ⟨List.not_mem_nil, rfl⟩
  | cons b bs ih =>
    by_cases hb : b = 10
    · subst hb
      exact .inl ⟨[], bs, List.not_mem_nil, rfl, by simp [splitLine]⟩
    · rcases ih with ⟨l, rest, hl, rfl, hsplit⟩ | ⟨hbs, hsplit⟩
      · refine .inl ⟨b :: l, rest, ?_, rfl, by simp [splitLine, hb, hsplit]⟩
        simpa [Ne.symm hb] using hl
      · refine .inr ⟨?_, by simp [splitLine, hb, hsplit]⟩
        simpa [Ne.symm hb] using hbs

theorem newline_not_mem_of_mem_splitOn {bs l : List UInt8} (h : l ∈ bs.splitOn 10) : 10 ∉ l := by
  induction bs generalizing l with
  | nil =>
    obtain rfl : l = [] := by simpa using h
    exact List.not_mem_nil
  | cons b bs ih =>
    obtain ⟨m, ms, hms⟩ := List.exists_cons_of_ne_nil (List.splitOn_ne_nil 10 bs)
    rw [hms] at ih
    by_cases hb : b = 10
    · have hl : l = [] ∨ l ∈ m :: ms := by
        simpa [List.splitOn_cons_eq_if_modifyHead, hb, hms] using h
      rcases hl with rfl | hl
      · exact List.not_mem_nil
      · exact ih hl
    · have hl : l = b :: m ∨ l ∈ ms := by
        simpa [List.splitOn_cons_eq_if_modifyHead, hb, hms] using h
      rcases hl with rfl | hl
      · simpa [Ne.symm hb] using ih List.mem_cons_self
      · exact ih (List.mem_cons_of_mem m hl)

theorem newline_not_mem_of_mem_linesOf {bs l : List UInt8} (h : l ∈ linesOf bs) : 10 ∉ l := by
  unfold linesOf at h
  split at h
  · exact newline_not_mem_of_mem_splitOn (List.dropLast_subset _ h)
  · exact newline_not_mem_of_mem_splitOn h

/-! ### One command -/

theorem readLine_snd (ch : Channel) :
    ch.readLine.2 = { ch with incoming := (splitLine ch.incoming).2 } := by
  unfold readLine
  dsimp only
  split
  · rfl
  · split <;> rfl

/-- What a command is answered by: the reply on its line, if there is a line. -/
def answerOn : Option (List UInt8) → Outcome
  | some l => .ok (.read (Utf8.decodeLossy l))
  | none => .error .closed

theorem readLine_spec {ch : Channel} (hr : ch.resetsAtEnd = false) :
    ch.readLine.1 = answerOn (linesOf ch.incoming).head? ∧
      linesOf ch.readLine.2.incoming = (linesOf ch.incoming).tail := by
  rw [readLine_snd]
  rcases splitLine_spec ch.incoming with ⟨l, rest, hl, hbs, hsplit⟩ | ⟨hbs, hsplit⟩
  · have hlines : linesOf ch.incoming = l :: linesOf rest := by
      rw [hbs, linesOf_append_newline hl]
    have hread : Reply.read (Utf8.decodeLossy (l ++ [10])) = Reply.read (Utf8.decodeLossy l) := by
      rw [Utf8.decodeLossy_append_newline, Reply.read_append_newline]
    simp [readLine, hr, hsplit, hlines, answerOn, hread]
  · have hlines := linesOf_of_not_mem hbs
    by_cases hnil : ch.incoming = []
    · simp [readLine, hr, splitLine, hnil, linesOf_of_not_mem, answerOn]
    · simp [readLine, hr, hsplit, hlines, hnil, linesOf_of_not_mem, answerOn]

theorem send_of_writes {ch : Channel} {line : Text} (h : '\n' ∉ line) (hw : ch.writesLeft = none) :
    (ch.send line).2.writesLeft = none ∧ (ch.send line).2.sent = ch.sent ++ (line ++ ['\n']) := by
  have hwrite : ch.write line = some { ch with sent := ch.sent ++ (line ++ ['\n']) } := by
    simp [write, hw]
  rw [send, if_neg h, hwrite]
  dsimp only
  rw [readLine_snd]
  exact ⟨hw, rfl⟩

structure Reliable (ch : Channel) : Prop where
  writes : ch.writesLeft = none
  reads : ch.resetsAtEnd = false

theorem send_of_newline_mem (ch : Channel) {c : Text} (h : '\n' ∈ c) :
    ch.send c = (.error .multiLine, ch) := by
  rw [send, if_pos h]

theorem Reliable.send_spec {ch : Channel} (hch : ch.Reliable) {c : Text} (h : '\n' ∉ c) :
    (ch.send c).1 = answerOn (linesOf ch.incoming).head? ∧
      linesOf (ch.send c).2.incoming = (linesOf ch.incoming).tail ∧ (ch.send c).2.Reliable := by
  have hwrite : ch.write c = some { ch with sent := ch.sent ++ (c ++ ['\n']) } := by
    simp [write, hch.writes]
  have hsend : ch.send c = readLine { ch with sent := ch.sent ++ (c ++ ['\n']) } := by
    rw [send, if_neg h, hwrite]
  obtain ⟨hanswer, hlines⟩ := @readLine_spec { ch with sent := ch.sent ++ (c ++ ['\n']) } hch.reads
  rw [hsend]
  refine ⟨hanswer, hlines, ?_⟩
  rw [readLine_snd]
  exact ⟨hch.writes, hch.reads⟩

/-! ### Many commands -/

def sendAll (ch : Channel) : List Text → List Outcome × Channel
  | [] => ([], ch)
  | c :: cs => ((ch.send c).1 :: ((ch.send c).2.sendAll cs).1, ((ch.send c).2.sendAll cs).2)

def accepted (cs : List Text) : Nat := cs.countP fun c => '\n' ∉ c

theorem length_sendAll (ch : Channel) (cs : List Text) : (ch.sendAll cs).1.length = cs.length := by
  induction cs generalizing ch with
  | nil => rfl
  | cons c cs ih => rw [sendAll, List.length_cons, ih, List.length_cons]

/-- A command sees the connection as the commands before it have left it. -/
theorem sendAll_getElem? (ch : Channel) {cs : List Text} {i : Nat} {c : Text}
    (h : cs[i]? = some c) :
    (ch.sendAll cs).1[i]? = some ((ch.sendAll (cs.take i)).2.send c).1 ∧
      (ch.sendAll (cs.take (i + 1))).2 = ((ch.sendAll (cs.take i)).2.send c).2 := by
  induction cs generalizing ch i with
  | nil => simp at h
  | cons d cs ih =>
    cases i with
    | zero =>
      obtain rfl : d = c := by simpa using h
      simp [sendAll]
    | succ i => simpa [sendAll] using ih (ch.send d).2 (by simpa using h)

/-- Commands that are not refused have used up one line each. -/
theorem Reliable.sendAll_spec {ch : Channel} (hch : ch.Reliable) (cs : List Text) :
    (ch.sendAll cs).2.Reliable ∧
      linesOf (ch.sendAll cs).2.incoming = (linesOf ch.incoming).drop (accepted cs) := by
  induction cs generalizing ch with
  | nil => exact ⟨hch, by simp [sendAll, accepted]⟩
  | cons c cs ih =>
    by_cases hc : '\n' ∈ c
    · have hih := ih hch
      simpa [sendAll, send_of_newline_mem ch hc, accepted, hc] using hih
    · obtain ⟨-, hlines, hrel⟩ := hch.send_spec hc
      obtain ⟨hrel', hlines'⟩ := ih hrel
      refine ⟨hrel', hlines'.trans ?_⟩
      simp [hlines, accepted, hc]

/-- Commands and replies are paired by their places: the outcome of a command that is not refused is
the reply on the line with its number among those, and its own line is all that is written for it.
What is read as raw text holds no line end. -/
theorem sendAll_paired {ch : Channel} (hch : ch.Reliable) (cs : List Text) :
    (ch.sendAll cs).1.length = cs.length ∧
      (∀ i c, cs[i]? = some c →
        let before := (ch.sendAll (cs.take i)).2
        let after := (ch.sendAll (cs.take (i + 1))).2
        ('\n' ∈ c → (ch.sendAll cs).1[i]? = some (.error .multiLine) ∧ after = before) ∧
          ('\n' ∉ c →
            (ch.sendAll cs).1[i]? =
              some (answerOn (linesOf ch.incoming)[accepted (cs.take i)]?) ∧
            after.sent = before.sent ++ (c ++ ['\n']))) ∧
      ∀ l ∈ linesOf ch.incoming,
        Reply.structured? (Reply.cut (Utf8.decodeLossy l)) = none →
        ∃ t, Reply.read (Utf8.decodeLossy l) = .success (some t) ∧ '\n' ∉ t ∧
          t.getLast? ≠ some '\r' := by
  refine ⟨ch.length_sendAll cs, ?_, ?_⟩
  · intro i c hi
    obtain ⟨hrel, hlines⟩ := hch.sendAll_spec (cs.take i)
    obtain ⟨hout, hafter⟩ := ch.sendAll_getElem? hi
    dsimp only
    rw [hout, hafter]
    refine ⟨fun hc => by rw [send_of_newline_mem _ hc]; exact ⟨rfl, rfl⟩, fun hc => ?_⟩
    obtain ⟨hanswer, -, -⟩ := hrel.send_spec hc
    rw [hanswer, hlines, List.head?_drop]
    exact ⟨rfl, (send_of_writes hc hrel.writes).2⟩
  · intro l hl hraw
    obtain ⟨hread, hlast⟩ := Reply.read_of_not_structured hraw
    refine ⟨_, hread, fun hmem => ?_, hlast⟩
    exact Utf8.newline_not_mem_decodeLossy (newline_not_mem_of_mem_linesOf hl)
      (Reply.mem_of_mem_cut hmem)

/-- A peer that sends a line with a carriage return, an empty one, and one that breaks off inside a
character. -/
def brokenOff : Channel where
  incoming := [110, 111, 13, 10, 10, 0xE2, 0x82]

/-- Five requests, of which the second is refused and the last finds nothing to read. -/
def requests : List Text :=
  ["logout".toList, "a\nb".toList, "list_users".toList, [], "dir_list /".toList]

theorem sendAll_paired_brokenOff :
    brokenOff.Reliable ∧ (brokenOff.sendAll requests).1[1]? = some (.error .multiLine) ∧
      (brokenOff.sendAll requests).1[2]? = some (answerOn (some [])) ∧
      (brokenOff.sendAll requests).1[3]? = some (answerOn (some [0xE2, 0x82])) ∧
      (brokenOff.sendAll requests).1[4]? = some (.error .closed) := by
  have hrel : brokenOff.Reliable := ⟨rfl, rfl⟩
  obtain ⟨-, hpaired, -⟩ := sendAll_paired hrel requests
  exact ⟨hrel, ((hpaired 1 _ rfl).1 (by decide)).1, ((hpaired 2 _ rfl).2 (by decide)).1,
    ((hpaired 3 _ rfl).2 (by decide)).1, ((hpaired 4 _ rfl).2 (by decide)).1⟩

end Channel

end StorageClient
