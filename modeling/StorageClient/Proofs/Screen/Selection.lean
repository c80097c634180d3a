import StorageClient.Screen.Menu

/-!
The selection of a menu as a position on a line that is wound around the entries. A key moves the
position by a row or not at all, and the entry selected is the remainder of the position; rows above
the first are counted from the end.
-/

namespace StorageClient

def Key.shift (k : Key) : Int :=
  if k.code = .down then 1 else if k.code = .up then -1 else 0

def Key.travel (ks : List Key) : Int :=
  (ks.countP fun k => k.code = .down : Int) - (ks.countP fun k => k.code = .up : Int)

theorem Key.travel_cons (k : Key) (ks : List Key) : travel (k :: ks) = k.shift + travel ks := by
  rw [travel, travel, List.countP_cons, List.countP_cons, shift]
  by_cases hdown : k.code = .down
  · simp only [hdown, reduceCtorEq, decide_true, decide_false, if_true, if_false]
    omega
  · by_cases hup : k.code = .up
    · simp only [hup, reduceCtorEq, decide_true, decide_false, if_true, if_false]
      omega
    · simp only [hdown, hup, decide_false, if_false]
      omega

namespace Menu

/-- The menu after keys, whether they choose an entry or not. -/
def run (m : Menu) : List Key → Except Fault Menu
  | [] => .ok m
  | k :: ks => do
    let (m, _) ← m.handle k
    m.run ks

/-- One of `count` entries is selected, the one that a position comes to. -/
structure Points (m : Menu) (count : Nat) (pos : Int) : Prop where
  count_eq : m.count = count
  selected_eq : (m.selected : Int) = pos % count

variable {m m' : Menu} {count : Nat} {pos : Int}

theorem Points.selected_lt (h : m.Points count pos) : m.selected < count := by
  have hpos := m.count_pos
  rw [h.count_eq] at hpos
  have hlt := Int.emod_lt_of_pos pos (Int.natCast_pos.mpr hpos)
  rw [← h.selected_eq] at hlt
  exact Int.ofNat_lt.mp hlt

theorem Points.unique (h : m.Points count pos) (h' : m'.Points count pos) : m = m' := by
  refine Menu.ext (Int.ofNat_inj.mp ?_) (h.count_eq.trans h'.count_eq.symm)
  rw [h.selected_eq, h'.selected_eq]

theorem points_start (n : Nat) : (start n).Points (max n 1) 0 := ⟨rfl, (Int.zero_emod _).symm⟩

theorem points_of_lt (h : m.selected < m.count) : m.Points m.count m.selected :=
  ⟨rfl, (Int.emod_eq_of_lt (Int.natCast_nonneg _) (Int.ofNat_lt.mpr h)).symm⟩

/-- A key moves the position, and one key chooses the entry selected. No sum on the way is too large
for its word. -/
theorem Points.handle (h : m.Points count pos) (hcount : count ≤ Word.half64) (k : Key) :
    ∃ m', m.handle k = .ok (m', if k.code = .enter then some m.selected else none) ∧
      m'.Points count (pos + k.shift) := by
  have hlt := h.selected_lt
  obtain ⟨rfl, hselected⟩ := h
  have hpos := m.count_pos
  unfold Menu.handle Key.shift
  split
  · next hcode =>
    have hsize : Word.half64 + Word.half64 = Word.size64 := by decide
    have hcheck : Word.check (m.selected + m.count) 0 = .ok () := Word.check_of_lt (by omega)
    have hback : ((m.selected + m.count - 1 : Nat) : Int) = m.selected + -1 + m.count := by omega
    rw [hcheck, hcode]
    refine ⟨_, rfl, rfl, ?_⟩
    change ((_ % _ : Nat) : Int) = (pos + -1) % _
    rw [Int.natCast_emod, hback, Int.add_emod_right, hselected, Int.emod_add_emod]
  · next hcode =>
    rw [hcode]
    refine ⟨_, rfl, rfl, ?_⟩
    change ((_ % _ : Nat) : Int) = (pos + 1) % _
    rw [Int.natCast_emod, Int.natCast_add, hselected, Int.natCast_one, Int.emod_add_emod]
  · next hcode =>
    rw [hcode]
    exact ⟨m, rfl, rfl, hselected.trans (congrArg (· % _) (Int.add_zero pos).symm)⟩
  · next hup hdown henter =>
    rw [if_neg henter, if_neg hdown, if_neg hup, Int.add_zero]
    exact ⟨m, rfl, rfl, hselected⟩

theorem Points.handle_of_still (h : m.Points count pos) (hcount : count ≤ Word.half64) {k : Key}
    (hup : k.code ≠ .up) (hdown : k.code ≠ .down) :
    m.handle k = .ok (m, if k.code = .enter then some m.selected else none) := by
  obtain ⟨m', hm', hpoints⟩ := h.handle hcount k
  rw [Key.shift, if_neg hdown, if_neg hup, Int.add_zero] at hpoints
  rw [hm', hpoints.unique h]

theorem Points.run (h : m.Points count pos) (hcount : count ≤ Word.half64) (ks : List Key) :
    ∃ m', m.run ks = .ok m' ∧ m'.Points count (pos + Key.travel ks) := by
  induction ks generalizing m pos with
  | nil => exact ⟨m, rfl, (Int.add_zero pos).symm ▸ h⟩
  | cons k ks ih =>
    obtain ⟨m₁, hm₁, hpoints⟩ := h.handle hcount k
    obtain ⟨m₂, hm₂, hpoints⟩ := ih hpoints
    refine ⟨m₂, ?_, ?_⟩
    · rw [Menu.run, hm₁]
      exact hm₂
    · rwa [Key.travel_cons, ← Int.add_assoc]

/-- After any keys the entry is selected that lies as many rows from the first as they come to. -/
theorem run_start {n : Nat} (hn : max n 1 ≤ Word.half64) (ks : List Key) :
    ∃ m, (start n).run ks = .ok m ∧ m.Points (max n 1) (Key.travel ks) := by
  have hrun := (points_start n).run hn ks
  rwa [Int.zero_add] at hrun

theorem points_of_run {n : Nat} (hn : max n 1 ≤ Word.half64) {ks : List Key}
    (h : (start n).run ks = .ok m) : m.Points (max n 1) (Key.travel ks) := by
  obtain ⟨m', hm', hpoints⟩ := run_start hn ks
  rw [h] at hm'
  rwa [Except.ok.inj hm']

theorem run_append_singleton {ks : List Key} {k : Key} {i : Option Nat} (h : m.run ks = .ok m')
    {m'' : Menu} (hk : m'.handle k = .ok (m'', i)) : m.run (ks ++ [k]) = .ok m'' := by
  induction ks generalizing m with
  | nil =>
    cases h
    rw [List.nil_append, Menu.run, hk]
    rfl
  | cons k' ks ih =>
    rw [Menu.run] at h
    rw [List.cons_append, Menu.run]
    cases hk' : m.handle k' with
    | error fault =>
      rw [hk'] at h
      cases h
    | ok r =>
      rw [hk'] at h
      exact ih h

end Menu

end StorageClient
