import StorageClient.Proofs.Program.Errands
import StorageClient.Proofs.Screen.Selection

/-!
What is chosen from the menu. A run opens it with the first entry selected and hands it every key
until one is chosen, so the selection is told by the keys since then, and there always is an entry to
go on with.
-/

namespace StorageClient

/-- The keys pressed at the menu since it was opened, after a further turn. -/
def Turn.visit (ks : List Key) (u : Turn) : List Key :=
  match u.phase, u.event with
  | .menu _ _, .key k => ks ++ [k]
  | .menu _ _, _ => ks
  | _, _ => []

namespace Phase

variable {size : Nat × Nat} {user : Text} {entry : Entry} {log : Log}

theorem Proceeds.ne_menu {f : Form Task} {ph : Phase} (h : Proceeds size user entry f log ph) :
    ∀ user' m, ph ≠ menu user' m := by
  cases h with
  | ask q next => nofun
  | perform h => cases h <;> nofun

/-- Wherever a run comes to the menu from, the first entry is selected. -/
theorem Moves.eq_start {ph : Phase} {e : Event} {next : Option Phase}
    (h : Moves size ph e log next) (hph : ∀ user m, ph ≠ menu user m) {m : Menu}
    (hnext : next = some (menu user m)) : m = .start Entry.all.length := by
  cases h with
  | select hc m' => exact absurd rfl (hph _ _)
  | choose hc hp => exact absurd rfl (hph _ _)
  | dismiss n next k =>
    cases next with
    | menu user' =>
      cases hnext
      rfl
    | _ => cases hnext
  | fill ha ht hp => exact absurd (Option.some.inj hnext) (hp.ne_menu _ _)
  | giveUp ha hq | shut user' path r e =>
    cases hnext
    rfl
  | _ => cases hnext

end Phase

/-! ### Turns at the menu -/

section Turns

open Dialogue

variable {u : Turn} {user : Text} {m : Menu}

theorem Turn.Happens.next_of_handle (h : u.Happens) (hu : u.phase = .menu user m) {k : Key}
    (he : u.event = .key k) {m' : Menu} (hm : m.handle k = .ok (m', none)) :
    u.next = some (.menu user m') := by
  unfold Turn.Happens at h
  rw [hu, he] at h
  rcases comes_bindT h with ⟨fault, hbad, -⟩ | ⟨r, front, back, -, hx, h⟩
  · cases hbad
  · obtain ⟨-, hr⟩ := comes_liftExcept hx
    rw [hm] at hr
    cases hr
    exact Except.ok.inj h.2

theorem Turn.Happens.next_of_not_key (h : u.Happens) (hu : u.phase = .menu user m)
    (he : ∀ k, u.event ≠ .key k) : u.next = some (.menu user m) := by
  unfold Turn.Happens at h
  rw [hu] at h
  cases hevent : u.event with
  | key k => exact absurd hevent (he k)
  | _ =>
    rw [hevent] at h
    exact Except.ok.inj h.2

/-- No key is taken for a choice without an entry behind it. -/
theorem Menu.Points.chosen?_eq {pos : Int} (h : m.Points Entry.all.length pos) {k : Key}
    (hk : k.code = .enter) : ∃ entry, Entry.all[m.selected]? = some entry ∧
      m.chosen? (.key k) = some entry := by
  have hhandle := h.handle_of_still (by decide) (k := k) (by simp [hk]) (by simp [hk])
  rw [if_pos hk] at hhandle
  have hentry := List.getElem?_eq_getElem h.selected_lt
  exact ⟨_, hentry, by simp [Menu.chosen?, hhandle, hentry]⟩

theorem Turn.Happens.proceeds (h : u.Happens) (hu : u.phase = .menu user m) {entry : Entry}
    (hchosen : m.chosen? u.event = some entry) : ∃ ph, u.next = some ph ∧
      Phase.Proceeds (sizeAfter u.size u.event) user entry entry.form u.log ph := by
  obtain ⟨size, phase, event, log, next⟩ := u
  have hmoves := h.moves
  dsimp only at hu hchosen hmoves ⊢
  subst hu
  cases hmoves with
  | select hc m' => cases hc.symm.trans hchosen
  | @choose _ _ _ entry' log ph hc hp =>
    obtain rfl := Option.some.inj (hc.symm.trans hchosen)
    exact ⟨ph, rfl, hp⟩

theorem Turn.Happens.run_append (h : u.Happens) (hu : u.phase = .menu user m) {ks : List Key}
    (hrun : (Menu.start Entry.all.length).run ks = .ok m) {k : Key} (he : u.event = .key k)
    {user' : Text} {m' : Menu} (hnext : u.next = some (.menu user' m')) :
    (Menu.start Entry.all.length).run (ks ++ [k]) = .ok m' := by
  have hpoints := Menu.points_of_run (by decide) hrun
  obtain ⟨m'', hm'', -⟩ := hpoints.handle (by decide) k
  by_cases hk : k.code = .enter
  · obtain ⟨entry, -, hchosen⟩ := hpoints.chosen?_eq hk
    obtain ⟨ph, hph, hproceeds⟩ := h.proceeds hu (he ▸ hchosen)
    exact absurd (Option.some.inj (hph.symm.trans hnext)) (hproceeds.ne_menu user' m')
  · rw [if_neg hk] at hm''
    cases (h.next_of_handle hu he hm'').symm.trans hnext
    exact Menu.run_append_singleton hrun hm''

theorem Turn.Happens.run_visit (h : u.Happens) {ks : List Key}
    (hks : ∀ user m, u.phase = .menu user m → (Menu.start Entry.all.length).run ks = .ok m)
    (hnext : u.next = some (.menu user m)) :
    (Menu.start Entry.all.length).run (u.visit ks) = .ok m := by
  unfold Turn.visit
  split
  · next user' m' k hu he => exact h.run_append hu (hks user' m' hu) he hnext
  · next user' m' hu hkey =>
    cases (h.next_of_not_key hu hkey).symm.trans hnext
    exact hks _ _ hu
  · next hmenu _ =>
    rw [h.moves.eq_start hmenu hnext]
    rfl

end Turns

/-- At the menu of a run the selection is that after the keys since the menu was opened. -/
theorem run_of_linked {size : Nat × Nat} {ph : Option Phase} {us front back : List Turn} {u : Turn}
    (h : Linked size ph us) (hus : us = front ++ u :: back) {ks : List Key}
    (hks : ∀ user m, ph = some (.menu user m) → (Menu.start Entry.all.length).run ks = .ok m)
    {user : Text} {m : Menu} (hu : u.phase = .menu user m) :
    (Menu.start Entry.all.length).run (front.foldl Turn.visit ks) = .ok m := by
  induction front generalizing size ph us ks with
  | nil =>
    subst hus
    exact hks user m (hu ▸ h.1)
  | cons v front ih =>
    subst hus
    obtain ⟨rfl, -, hv, hrest⟩ := h
    refine ih hrest rfl fun user m hnext => hv.run_visit (fun user m hv => ?_) hnext
    exact hks user m (congrArg some hv)

/-- The keys that have been pressed decide what is selected: each press down counts one and each
press up takes one away, around the number of entries, and no other key counts. One key chooses the
entry selected. A run hands its menu all keys since it was opened; so wherever that one key is
pressed, there is an entry to go on with, and the menu is not simply opened again. -/
theorem runProgram_chooses {n : Nat} (hn : max n 1 ≤ Word.half64) :
    (∀ ks : List Key, ∃ m, (Menu.start n).run ks = .ok m ∧ m.count = max n 1 ∧
      m.selected < max n 1 ∧
      (m.selected : Int) = ((ks.countP fun k => k.code = .down : Int) -
        (ks.countP fun k => k.code = .up : Int)) % (max n 1 : Nat) ∧
      ∀ k, ∃ m', m.handle k = .ok (m', if k.code = .enter then some m.selected else none) ∧
        (k.code ≠ .up → k.code ≠ .down → m' = m)) ∧
    ∀ {σ : Type} (svc : Service (StateM σ)) (t : Terminal) (s : σ),
      let r := (runProgram svc.logged t .login).run.run (s, [])
      (runProgram svc t .login).run.run s = (r.1, r.2.1) ∧
        ∃ us, Records t.size .login (t.events.filter Event.isUsed) r.2.2 r.1 us ∧
          ∀ front u back, us = front ++ u :: back → ∀ user m, u.phase = .menu user m →
            (Menu.start Entry.all.length).run (front.foldl Turn.visit []) = .ok m ∧
            ∀ k, u.event = .key k → k.code = .enter → ∃ entry ph,
              Entry.all[m.selected]? = some entry ∧ u.next = some ph ∧
              Phase.Proceeds (sizeAfter u.size u.event) user entry entry.form u.log ph ∧
              ∀ user' m', ph ≠ .menu user' m' := by
  constructor
  · intro ks
    obtain ⟨m, hm, hpoints⟩ := Menu.run_start hn ks
    refine ⟨m, hm, hpoints.count_eq, hpoints.selected_lt, hpoints.selected_eq, fun k => ?_⟩
    obtain ⟨m', hm', -⟩ := hpoints.handle hn k
    refine ⟨m', hm', fun hup hdown => ?_⟩
    have hstill := hpoints.handle_of_still hn hup hdown
    rw [hm'] at hstill
    exact (Prod.mk.inj (Except.ok.inj hstill)).1
  · intro σ svc t s
    obtain ⟨hplain, us, hus⟩ := runProgram_logged svc t .login s
    refine ⟨hplain, us, hus, fun front u back hsplit user m hu => ?_⟩
    have hrun : (Menu.start Entry.all.length).run (front.foldl Turn.visit []) = .ok m :=
      run_of_linked hus.linked hsplit nofun hu
    refine ⟨hrun, fun k he hk => ?_⟩
    have hmem : u ∈ us := hsplit ▸ List.mem_append_right front List.mem_cons_self
    obtain ⟨entry, hentry, hchosen⟩ := (Menu.points_of_run (by decide) hrun).chosen?_eq hk
    obtain ⟨ph, hph, hproceeds⟩ := (happens_of_mem hus.linked hmem).proceeds hu (he ▸ hchosen)
    exact ⟨entry, ph, hentry, hph, hproceeds, hproceeds.ne_menu⟩

/-- In the largest menu one press up leads from the first entry to the last. -/
theorem runProgram_chooses_largest :
    max Word.half64 1 ≤ Word.half64 ∧
      ∃ m m', (Menu.start Word.half64).run [{ code := .up }] = .ok m ∧
        m.handle { code := .enter } = .ok (m', some 9223372036854775807) := by
  have hn : max Word.half64 1 ≤ Word.half64 := by decide
  obtain ⟨m, hm, -, -, hselected, hhandle⟩ := (runProgram_chooses hn).1 [{ code := .up }]
  obtain ⟨m', hm', -⟩ := hhandle { code := .enter }
  have hlast : m.selected = 9223372036854775807 := Int.ofNat_inj.mp (hselected.trans (by decide))
  exact ⟨hn, m, m', hm, hlast ▸ hm'⟩

end StorageClient
