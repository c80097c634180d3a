import StorageClient.Proofs.Editor.History
import StorageClient.Proofs.Editor.Steps
import StorageClient.Proofs.Text.Wrapping

/-!
Typing at the end of a text. Lines that are filled one character at a time come out as if the whole
text had been wrapped at once, but for an empty line that waits for the next character when the last
one is full.
-/

namespace StorageClient

open Text

namespace Buffer

structure Ends (b : Buffer) (c : Cursor) (above full : List Text) (last t : Text) : Prop where
  lines_eq : b.lines = above ++ full ++ [last]
  cursor_eq : c = ⟨(above ++ full).length, last.length⟩
  full_length : ∀ l ∈ full, l.length = b.maxWidth
  last_le : last.length ≤ b.maxWidth
  text_eq : full.flatten ++ last = t

theorem splice_last {b : Buffer} {front : List Text} {last : Text} (hb : b.lines = front ++ [last])
    (new : List Text) : b.splice front.length 1 new = { b with lines := front ++ new } := by
  simp [splice, hb]

/-- A character at the end of the last line. A line that was full before stays, and one that gets
full is followed by an empty line. -/
theorem insert_last {b : Buffer} {front : List Text} {last : Text} (hb : b.lines = front ++ [last])
    (hle : last.length ≤ b.maxWidth) (ch : Char) :
    b.insert ⟨front.length, last.length⟩ ch = .ok
      (if last.length = b.maxWidth then
        ({ b with lines := front ++ [last, [ch]] }, ⟨front.length + 1, 1⟩)
      else if last.length + 1 = b.maxWidth then
        ({ b with lines := front ++ [last ++ [ch], []] }, ⟨front.length + 1, 0⟩)
      else ({ b with lines := front ++ [last ++ [ch]] }, ⟨front.length, last.length + 1⟩)) := by
  have hl : b.lines[front.length]? = some last := by simp [hb]
  by_cases hlt : last.length + 1 < b.maxWidth
  · rw [insert_of_lt hl (Nat.le_refl _) hlt, splice_last hb, List.take_length, List.drop_length,
      if_neg (by omega), if_neg (by omega)]
  · have hsnoc : last.take last.length ++ ch :: last.drop last.length = last ++ [ch] := by simp
    rw [insert_of_le hl (Nat.le_refl _) (Nat.not_lt.mp hlt) ch hsnoc rfl, splice_last hb]
    by_cases hfull : last.length = b.maxWidth
    · have hk : min (last.length + 1) b.maxWidth = last.length := by omega
      rw [if_pos hfull, hk]
      simp
    · have hk : min (last.length + 1) b.maxWidth = (last ++ [ch]).length := by
        rw [List.length_append, List.length_singleton]
        omega
      rw [if_neg hfull, if_pos (by omega), hk, List.take_length, List.drop_length]
      simp

namespace Ends

variable {b : Buffer} {c : Cursor} {above full : List Text} {last t : Text}

/-- One character more. In lines of two or more characters the last one is not full afterwards, and
neither is it where it was not full before. -/
theorem insert (h : b.Ends c above full last t) (ch : Char) :
    ∃ b' c' full' last', b.insert c ch = .ok (b', c') ∧ b'.maxWidth = b.maxWidth ∧
      b'.Ends c' above full' last' (t ++ [ch]) ∧
      (2 ≤ b.maxWidth ∨ last.length < b.maxWidth → last'.length < b.maxWidth) := by
  obtain ⟨hlines, rfl, hfull, hle, rfl⟩ := h
  have hpos := b.maxWidth_pos
  rw [insert_last hlines hle]
  have hsnoc : ∀ {l}, l.length = b.maxWidth → ∀ k ∈ full ++ [l], k.length = b.maxWidth :=
    fun hl => List.forall_mem_append.mpr ⟨hfull, List.forall_mem_singleton.mpr hl⟩
  split
  · next heq =>
    refine ⟨_, _, full ++ [last], [ch], rfl, rfl, ⟨by simp, by simp; omega, hsnoc heq, hpos, by simp⟩, ?_⟩
    rw [List.length_singleton]
    omega
  · split
    · next heq =>
      have hlen : (last ++ [ch]).length = b.maxWidth := by
        rwa [List.length_append, List.length_singleton]
      exact ⟨_, _, full ++ [last ++ [ch]], [], rfl, rfl,
        ⟨by simp, by simp; omega, hsnoc hlen, Nat.zero_le _, by simp⟩, fun _ => hpos⟩
    · have hlen : (last ++ [ch]).length = last.length + 1 := by simp
      refine ⟨_, _, full, last ++ [ch], rfl, rfl, ⟨by simp, by simp, hfull, ?_, by simp⟩, ?_⟩
      · dsimp only
        omega
      · omega

theorem length_eq (h : b.Ends c above full last t) :
    t.length = b.maxWidth * full.length + last.length := by
  rw [← h.text_eq, List.length_append, length_flatten_of_full h.full_length, Nat.mul_comm]

theorem cursor_eq_div_mod (h : b.Ends c above full last t) (hlt : last.length < b.maxWidth) :
    c = ⟨above.length + t.length / b.maxWidth, t.length % b.maxWidth⟩ := by
  have hrow : t.length / b.maxWidth = full.length := by
    rw [h.length_eq, Nat.mul_add_div b.maxWidth_pos, Nat.div_eq_of_lt hlt, Nat.add_zero]
  have hcol : t.length % b.maxWidth = last.length := by
    rw [h.length_eq, Nat.mul_add_mod, Nat.mod_eq_of_lt hlt]
  rw [h.cursor_eq, hrow, hcol, List.length_append]

/-- The lines are those of the text, and an empty one if the last of these is full. -/
theorem lines_cases (h : b.Ends c above full last t) (ht : t ≠ []) :
    last ≠ [] ∧ b.lines = above ++ wrapSegment b.maxWidth t ∨
      last = [] ∧ b.lines = above ++ wrapSegment b.maxWidth t ++ [[]] := by
  obtain ⟨hlines, -, hfull, hle, rfl⟩ := h
  have hmax : max b.maxWidth 1 = b.maxWidth := Nat.max_eq_left b.maxWidth_pos
  rw [← hmax] at hfull hle
  by_cases hlast : last = []
  · -- Nothing is typed on the last line yet, so the text ends in the full line above it.
    subst hlast
    rw [List.append_nil] at ht ⊢
    obtain ⟨full, l, rfl⟩ : ∃ front l, full = front ++ [l] := by
      rcases List.eq_nil_or_concat full with rfl | ⟨front, l, rfl⟩
      · exact absurd rfl ht
      · exact ⟨front, l, List.concat_eq_append⟩
    obtain ⟨hfull, hl⟩ := List.forall_mem_append.mp hfull
    have hlen : l.length = max b.maxWidth 1 := hl l (List.mem_singleton_self l)
    have hne : l ≠ [] := List.length_pos_iff.mp (by omega)
    have hfills := fills_iff.mp (.lines hfull hne (Nat.le_of_eq hlen))
    refine .inr ⟨rfl, ?_⟩
    rw [hlines, List.flatten_append, List.flatten_singleton, ← hfills]
  · have hfills := fills_iff.mp (.lines hfull hlast hle)
    exact .inl ⟨hlast, by rw [hlines, ← hfills, List.append_assoc]⟩

/-- There is an empty line more exactly if the text fills its lines to the end, provided that the
last line was not full already. -/
theorem lines_eq_iff (h : b.Ends c above full last t) (ht : t ≠ [])
    (hlt : last.length < b.maxWidth) :
    b.lines = above ++ wrapSegment b.maxWidth t ++ [[]] ↔ b.maxWidth ∣ t.length := by
  have hdvd : b.maxWidth ∣ t.length ↔ last = [] := by
    rw [h.length_eq, Nat.dvd_add_right (Nat.dvd_mul_right _ _), ← List.length_eq_zero_iff]
    exact ⟨fun hd => Nat.eq_zero_of_dvd_of_lt hd hlt, fun hz => hz ▸ Nat.dvd_zero _⟩
  rw [hdvd]
  constructor
  · intro hlines
    rw [h.lines_eq] at hlines
    simpa using (List.append_inj' hlines rfl).2
  · intro hlast
    rcases h.lines_cases ht with ⟨hne, -⟩ | ⟨-, hlines⟩
    · exact absurd hlast hne
    · exact hlines

end Ends

end Buffer

namespace Session

/-- The input enters the character while the text has the focus. -/
def Input.Types (i : Input) (ch : Char) : Prop := i.request .editing = some (.insert ch)

def Input.Moves (i : Input) : Prop := ∃ d, i.request .editing = some (.move d)

def AtEnd (s : Session) : Prop :=
  s.cursor.row + 1 = s.buffer.count ∧ s.cursor.col = s.buffer.lineLength s.cursor.row

structure Typing (s : Session) (w : Nat) (above full : List Text) (last t : Text) : Prop where
  sound : s.Sound
  mode_eq : s.mode = .editing
  width_eq : s.buffer.maxWidth = w
  ends : s.buffer.Ends s.cursor above full last t

variable {s s' : Session} {w : Nat} {above full : List Text} {last t u : Text}

/-! ### Moves -/

theorem feed_of_moves {i : Input} {x : Option Exit} (hm : s.mode = .editing) (hi : i.Moves)
    (h : s.feed i = .ok (s', x)) :
    s'.buffer = s.buffer ∧ s'.geometry = s.geometry ∧ s'.mode = .editing := by
  obtain ⟨d, hd⟩ := hi
  rw [feed_eq, hm, hd] at h
  simp only [apply, apply.onText, hm] at h
  obtain ⟨s₁, hs₁, h⟩ := eq_ok_of_bind h
  cases h
  obtain ⟨c, -, hfollow⟩ := eq_ok_of_bind hs₁
  obtain ⟨v, rfl⟩ := eq_of_follow hfollow
  exact ⟨rfl, rfl, hm⟩

theorem run_of_moves {is : List Input} (hm : s.mode = .editing) (his : ∀ i ∈ is, i.Moves)
    (h : s.run is = .ok s') :
    s'.buffer = s.buffer ∧ s'.geometry = s.geometry ∧ s'.mode = .editing := by
  induction is generalizing s with
  | nil =>
    cases h
    exact ⟨rfl, rfl, hm⟩
  | cons i is ih =>
    obtain ⟨hi, his⟩ := List.forall_mem_cons.mp his
    obtain ⟨⟨s₁, x⟩, hs₁, h⟩ := eq_ok_of_bind h
    obtain ⟨hb, hg, hm₁⟩ := feed_of_moves hm hi hs₁
    obtain ⟨hb', hg', hm'⟩ := ih hm₁ his h
    exact ⟨hb'.trans hb, hg'.trans hg, hm'⟩

theorem Input.Moves.ne_insert {i : Input} (hi : i.Moves) : i ≠ .action (.insert '\n') := by
  rintro rfl
  obtain ⟨d, hd⟩ := hi
  cases hd

/-! ### Characters -/

theorem Typing.feed_spec (h : s.Typing w above full last t) {i : Input} {ch : Char}
    (hi : i.Types ch) (hch : ch ≠ '\n') :
    ∃ s' full' last', s.feed i = .ok (s', none) ∧ s'.Typing w above full' last' (t ++ [ch]) ∧
      (2 ≤ w ∨ last.length < w → last'.length < w) := by
  obtain ⟨hsound, hm, rfl, hends⟩ := h
  obtain ⟨b, c, full', last', hinsert, hw, hends', hlt⟩ := hends.insert ch
  obtain ⟨r, s', hr, hs', hsound', -⟩ := hsound.insert_spec hch
  obtain rfl : (b, c) = r := Except.ok.inj (hinsert.symm.trans hr)
  have hfeed : s.feed i = .ok (s', none) := by
    rw [feed_eq, hm, hi]
    simp only [apply, apply.onText, hm, hinsert, bind, Except.bind, hs']
    rfl
  obtain ⟨v, rfl⟩ := eq_of_follow hs'
  exact ⟨_, full', last', hfeed, ⟨hsound', hm, hw, hends'⟩, hlt⟩

theorem Typing.run_spec (h : s.Typing w above full last t) {is : List Input}
    (his : List.Forall₂ Input.Types is u) (hu : '\n' ∉ u) :
    ∃ s' full' last', s.run is = .ok s' ∧ s'.Typing w above full' last' (t ++ u) ∧
      (2 ≤ w ∧ u ≠ [] ∨ last.length < w → last'.length < w) := by
  induction his generalizing s full last t with
  | nil => exact ⟨s, full, last, rfl, by rwa [List.append_nil], by simp⟩
  | @cons i ch is u hi _ ih =>
    rw [List.mem_cons, not_or] at hu
    obtain ⟨s₁, full₁, last₁, hs₁, h₁, hlt₁⟩ := h.feed_spec hi (Ne.symm hu.1)
    obtain ⟨s', full', last', hs', h', hlt'⟩ := ih h₁ hu.2
    refine ⟨s', full', last', ?_, ?_, fun hw => hlt' (.inr (hlt₁ ?_))⟩
    · rw [run, hs₁]
      exact hs'
    · rwa [List.append_assoc] at h'
    · exact hw.imp_left And.left

theorem Typing.atEnd (h : s.Typing w above full last t) : s.AtEnd := by
  obtain ⟨hlines, hc, -⟩ := h.ends
  simp [AtEnd, Buffer.count, Buffer.lineLength, hlines, hc, Nat.add_assoc]

/-! ### From the start of a session -/

/-- A session in which the cursor has been moved to the end. Its last line holds what stands behind
the last newline, as far as it is not in the full lines above. -/
theorem typing_of_moves {content : Text} {g : Geometry} (hg : g.window.height ≤ Word.max16)
    {moves : List Input} (hmoves : ∀ i ∈ moves, i.Moves)
    (hs : (start content g).run moves = .ok s) (hend : s.AtEnd) :
    ∃ full last, s.Typing g.maxWidth
      ((segments content).dropLast.flatMap (wrapSegment g.maxWidth)) full last
      (lastSegment content) := by
  have hmax : max g.maxWidth 1 = g.maxWidth := Nat.max_eq_left g.maxWidth_pos
  have hin : .action (.insert '\n') ∉ moves := fun hmem => (hmoves _ hmem).ne_insert rfl
  obtain ⟨s₁, hs₁, hsound, -⟩ := (start_sound content hg).run_spec hin
  obtain rfl : s₁ = s := Except.ok.inj (hs₁.symm.trans hs)
  obtain ⟨hbuffer, -, hm⟩ := run_of_moves rfl hmoves hs
  obtain ⟨full, last, hlast, hfull, hle, htext⟩ :=
    (fills_wrapSegment g.maxWidth (lastSegment content)).exists_last
  rw [hmax] at hfull hle
  have hwidth : s₁.buffer.maxWidth = g.maxWidth := by
    rw [hbuffer]
    exact hmax
  have hlines : s₁.buffer.lines =
      (segments content).dropLast.flatMap (wrapSegment g.maxWidth) ++ full ++ [last] := by
    have hwrap := wrap_append List.not_mem_nil content g.maxWidth
    rw [List.append_nil, List.append_nil, hlast, ← List.append_assoc] at hwrap
    rw [hbuffer, ← hwrap]
    exact congrArg (wrap content) hmax
  refine ⟨full, last, hsound, hm, hwidth, hlines, ?_, hwidth ▸ hfull, hwidth ▸ hle, htext⟩
  obtain ⟨hrow, hcol⟩ := hend
  have hrow' : s₁.cursor.row =
      ((segments content).dropLast.flatMap (wrapSegment g.maxWidth) ++ full).length := by
    rw [Buffer.count, hlines, List.length_append, List.length_singleton] at hrow
    omega
  rw [Buffer.lineLength, hrow', hlines, List.getElem?_concat_length] at hcol
  exact congrArg₂ Cursor.mk hrow' hcol

/-- Characters typed at the end of a fresh session leave the lines that the whole text is wrapped in,
with at most one empty line behind them, and the cursor at the end. The empty line is there exactly
if what stands behind the last newline fills its lines. In a window of a single column this is so
when there was no text before; a line that was there before is full and gets no empty one. -/
theorem run_of_types (content : Text) {g : Geometry} (hg : g.window.height ≤ Word.max16)
    {moves : List Input} (hmoves : ∀ i ∈ moves, i.Moves)
    (hs : (start content g).run moves = .ok s) (hend : s.AtEnd)
    {is : List Input} (his : List.Forall₂ Input.Types is t) (ht : t ≠ []) (hn : '\n' ∉ t) :
    let w := g.maxWidth
    let lines := wrap (content ++ t) w
    ∃ s', s.run is = .ok s' ∧ s'.AtEnd ∧
      (s'.buffer.lines = lines ∨ s'.buffer.lines = lines ++ [[]]) ∧
      (2 ≤ w ∨ content = [] →
        (s'.buffer.lines = lines ++ [[]] ↔ w ∣ (lastSegment (content ++ t)).length)) ∧
      (content = [] → s'.cursor = ⟨t.length / w, t.length % w⟩) := by
  intro w lines
  obtain ⟨full, last, hstart⟩ := typing_of_moves hg hmoves hs hend
  obtain ⟨s', full', last', hs', h', hlt⟩ := hstart.run_spec his hn
  have hends := h'.ends
  have hw : s'.buffer.maxWidth = w := h'.width_eq
  have hne : lastSegment content ++ t ≠ [] := by simp [ht]
  have hlines : lines = (segments content).dropLast.flatMap (wrapSegment w) ++
      wrapSegment s'.buffer.maxWidth (lastSegment content ++ t) := by
    rw [hw]
    exact wrap_append hn content w
  -- Where no text stood before, the line that the typing began in was empty and not full.
  have hempty : content = [] → last.length < w := by
    rintro rfl
    have hlast : last = [] := (List.append_eq_nil_iff.mp hstart.ends.text_eq).2
    rw [hlast]
    exact g.maxWidth_pos
  have hroom : 2 ≤ w ∨ content = [] → last'.length < w :=
    fun hcase => hlt (hcase.imp (⟨·, ht⟩) hempty)
  refine ⟨s', hs', h'.atEnd, ?_, fun hcase => ?_, ?_⟩
  · rw [hlines]
    exact (hends.lines_cases hne).imp And.right And.right
  · have hiff := hends.lines_eq_iff hne (hw.symm ▸ hroom hcase)
    rw [hw] at hiff
    rwa [hlines, lastSegment_append hn, hw]
  · rintro rfl
    have hcursor := hends.cursor_eq_div_mod (hw.symm ▸ hroom (.inr rfl))
    rw [hw] at hcursor
    simpa [segments, lastSegment, pieces] using hcursor

instance (s : Session) : Decidable s.AtEnd := inferInstanceAs (Decidable (_ ∧ _))

def toEnd : List Input :=
  [.event (.key { code := .down }), .action (.move .right), .event (.key { code := .right }),
    .action (.move .right)]

def threeTyped : List Input :=
  [.event (.key { code := .char 'f' }), .action (.insert 'g'),
    .event (.key { code := .char 'h', kind := .repeated })]

theorem run_of_types_filling :
    (Geometry.ofTextArea 3 2).window.height ≤ Word.max16 ∧ (∀ i ∈ toEnd, i.Moves) ∧
      List.Forall₂ Input.Types threeTyped ['f', 'g', 'h'] ∧ '\n' ∉ ['f', 'g', 'h'] ∧
      ∃ s, (start "ab\ncde".toList (.ofTextArea 3 2)).run toEnd = .ok s ∧ s.AtEnd ∧
        ∃ s', s.run threeTyped = .ok s' ∧ s'.AtEnd ∧
          s'.buffer.lines = wrap "ab\ncdefgh".toList 3 ++ [[]] := by
  have hmoves : ∀ i ∈ toEnd, i.Moves := by
    simp only [toEnd, List.forall_mem_cons]
    exact ⟨⟨_, rfl⟩, ⟨_, rfl⟩, ⟨_, rfl⟩, ⟨_, rfl⟩, by simp⟩
  have htypes : List.Forall₂ Input.Types threeTyped ['f', 'g', 'h'] :=
    .cons rfl (.cons rfl (.cons rfl .nil))
  have hmoved : ((start "ab\ncde".toList (.ofTextArea 3 2)).run toEnd).toOption.any
      (fun s => decide s.AtEnd) = true := by decide +kernel
  refine ⟨by decide, hmoves, htypes, by decide, ?_⟩
  cases hs : (start "ab\ncde".toList (.ofTextArea 3 2)).run toEnd with
  | error fault =>
    rw [hs] at hmoved
    cases hmoved
  | ok s =>
    rw [hs] at hmoved
    have hend : s.AtEnd := of_decide_eq_true hmoved
    obtain ⟨s', hs', hend', -, hextra, -⟩ :=
      run_of_types _ (by decide) hmoves hs hend htypes (by decide) (by decide)
    exact ⟨s, rfl, hend, s', hs', hend', (hextra (.inl (by decide))).mpr (by decide)⟩

end Session

end StorageClient
