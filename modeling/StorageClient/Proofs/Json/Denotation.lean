import Mathlib.Data.List.Perm.Basic
import StorageClient.Proofs.Json.Spelling
import StorageClient.Proofs.Json.Values

/-!
What trees stand for, without saying how it is computed. An object stands for its members in
ascending order of keys, where the last member of a key counts and the others only have to be
readable. A tree that stands for a value is read as that value.
-/

namespace StorageClient.Json

def FitsWord (n : Int) : Prop := -(Word.half64 : Int) ≤ n ∧ n < Word.size64

instance (n : Int) : Decidable (FitsWord n) := inferInstanceAs (Decidable (_ ∧ _))

/-- An integer without fraction and exponent. Only those below zero have a sign. -/
def Numeral.ofInt (n : Int) : Numeral := ⟨decide (n < 0), Decimal.digitsOf n.natAbs, none, none⟩

def Ascending (ms : List (Text × Value)) : Prop := ms.Pairwise fun m n => m.1 < n.1

instance (ms : List (Text × Value)) : Decidable (Ascending ms) :=
  inferInstanceAs (Decidable (ms.Pairwise fun m n => m.1 < n.1))

namespace Tree

mutual

/-- The value that a tree without fractions and exponents stands for. -/
inductive Denotes : Tree → Value → Prop
  | null : Denotes .null .null
  | bool (b : Bool) : Denotes (.bool b) (.bool b)
  | integer {n : Int} (fits : FitsWord n) : Denotes (.number (.ofInt n)) (.integer n)
  | string {ps : List Piece} {s : Text} (spells : Spells ps s) : Denotes (.string ps) (.string s)
  | array {ts : List Tree} {vs : List Value} (items : ItemsDenote ts vs) :
      Denotes (.array ts) (.array vs)
  | object {ms : List (List Piece × Tree)} {ns vs : List (Text × Value)}
      (members : MembersDenote ms ns) (order : ns.Perm vs) (ascending : Ascending vs) :
      Denotes (.object ms) (.object vs)

inductive ItemsDenote : List Tree → List Value → Prop
  | nil : ItemsDenote [] []
  | cons {t : Tree} {v : Value} {ts : List Tree} {vs : List Value} (first : Denotes t v)
      (rest : ItemsDenote ts vs) : ItemsDenote (t :: ts) (v :: vs)

/-- The members that count, in their order: of each key the last one. -/
inductive MembersDenote : List (List Piece × Tree) → List (Text × Value) → Prop
  | nil : MembersDenote [] []
  | last {key : List Piece} {k : Text} {t : Tree} {v : Value} {ms : List (List Piece × Tree)}
      {ns : List (Text × Value)} (spells : Spells key k) (value : Denotes t v)
      (rest : MembersDenote ms ns) (once : k ∉ ns.map (·.1)) :
      MembersDenote ((key, t) :: ms) ((k, v) :: ns)
  | overwritten {key : List Piece} {k : Text} {t : Tree} {ms : List (List Piece × Tree)}
      {ns : List (Text × Value)} (spells : Spells key k) (readable : t.Meaningful)
      (rest : MembersDenote ms ns) (again : k ∈ ns.map (·.1)) : MembersDenote ((key, t) :: ms) ns

end

end Tree

/-! ### Integers -/

theorem natOf_digitsOf (n : Nat) : Numeral.natOf (Decimal.digitsOf n) = n := by
  have hpush : Numeral.pushDigit = fun m c => 10 * m + (c.toNat - '0'.toNat) := by
    funext m c
    rw [Numeral.pushDigit, Nat.mul_comm]
    rfl
  have hread := Nat.ofDigitChars_toDigits (b := 10) (n := n) (by decide) (by decide)
  rwa [Nat.ofDigitChars, ← hpush] at hread

theorem value_ofInt {n : Int} (h : FitsWord n) : (Numeral.ofInt n).value = some (.integer n) := by
  obtain ⟨hlow, hhigh⟩ := h
  unfold Numeral.ofInt Numeral.value
  simp only [natOf_digitsOf]
  by_cases hneg : n < 0
  · have hm : 0 < n.natAbs ∧ n.natAbs ≤ Word.half64 := by omega
    have hvalue : -(n.natAbs : Int) = n := by omega
    rw [if_neg (by simp [hneg]), if_pos (by simp [hneg, hm]), hvalue]
  · have hm : n.natAbs < Word.size64 := by omega
    have hvalue : (n.natAbs : Int) = n := by omega
    rw [if_pos (by simp [hneg, hm]), hvalue]

/-! ### Members in ascending order -/

theorem Ascending.nodup {ms : List (Text × Value)} (h : Ascending ms) : ms.Nodup := by
  refine List.Pairwise.imp ?_ h
  rintro m n hlt rfl
  exact List.lt_irrefl m.1 hlt

/-- Two lists in ascending order with the same members are one list. -/
theorem Ascending.eq_of_mem_iff {ms ns : List (Text × Value)} (hm : Ascending ms)
    (hn : Ascending ns) (h : ∀ m, m ∈ ms ↔ m ∈ ns) : ms = ns := by
  have hperm : ms.Perm ns := (List.perm_ext_iff_of_nodup hm.nodup hn.nodup).2 h
  refine List.Perm.eq_of_pairwise ?_ hm hn hperm
  intro m n _ _ hlt hgt
  exact absurd (List.lt_trans hlt hgt) (List.lt_irrefl m.1)

theorem Ascending.nodup_keys {ms : List (Text × Value)} (h : Ascending ms) :
    (ms.map (·.1)).Nodup := by
  refine List.pairwise_map.2 (List.Pairwise.imp ?_ h)
  intro m n hlt heq
  rw [heq] at hlt
  exact List.lt_irrefl n.1 hlt

namespace Value

variable {k : Text} {v : Value} {ms : List (Text × Value)}

/-- What is set comes in, and nothing but an earlier value of the key goes. -/
theorem mem_setMember (h : Ascending ms) (m : Text × Value) :
    m ∈ setMember k v ms ↔ m = (k, v) ∨ m ∈ ms ∧ m.1 ≠ k := by
  induction ms with
  | nil => simp [setMember]
  | cons n ms ih =>
    obtain ⟨hfirst, hrest⟩ := List.pairwise_cons.1 h
    rw [setMember]
    split
    · next heq =>
      have hlater : m ∈ ms → m.1 ≠ k := by
        intro hm hkey
        have hlt := hfirst m hm
        rw [hkey, heq] at hlt
        exact List.lt_irrefl _ hlt
      have hhead : m = n → ¬ m.1 ≠ k := by
        rintro rfl hne
        exact hne heq.symm
      rw [List.mem_cons, List.mem_cons]
      tauto
    · next hne =>
      split
      · next hlt =>
        have hlater : m ∈ n :: ms → m.1 ≠ k := by
          intro hm hkey
          rcases List.mem_cons.1 hm with rfl | hm
          · exact hne hkey.symm
          · have hlt' := List.lt_trans hlt (hfirst m hm)
            rw [hkey] at hlt'
            exact List.lt_irrefl _ hlt'
        rw [List.mem_cons]
        tauto
      · have hhead : m = n → m.1 ≠ k := by
          rintro rfl hkey
          exact hne hkey.symm
        rw [List.mem_cons, List.mem_cons, ih hrest]
        tauto

theorem ascending_setMember (h : Ascending ms) : Ascending (setMember k v ms) := by
  induction ms with
  | nil => exact List.pairwise_singleton _ _
  | cons n ms ih =>
    obtain ⟨hfirst, hrest⟩ := List.pairwise_cons.1 h
    rw [setMember]
    split
    · next heq =>
      refine List.pairwise_cons.2 ⟨fun m hm => ?_, hrest⟩
      rw [heq]
      exact hfirst m hm
    · next hne =>
      split
      · next hlt =>
        refine List.pairwise_cons.2 ⟨fun m hm => ?_, h⟩
        rcases List.mem_cons.1 hm with rfl | hm
        · exact hlt
        · exact List.lt_trans hlt (hfirst m hm)
      · next hge =>
        refine List.pairwise_cons.2 ⟨fun m hm => ?_, ih hrest⟩
        rcases (mem_setMember hrest m).1 hm with rfl | ⟨hm, -⟩
        · by_contra hle
          exact hne (List.le_antisymm (List.not_lt.1 hle) (List.not_lt.1 hge))
        · exact hfirst m hm

/-! ### Reading -/

open Json.Tree

mutual

theorem ofTree_of_denotes {t : Tree} {v : Value} (h : t.Denotes v) {depth : Nat}
    (deep : t.height ≤ depth) : ofTree depth t = some v := by
  cases h with
  | null => rfl
  | bool b => rfl
  | integer fits => exact value_ofInt fits
  | string spells => rw [ofTree, textOf_of_spells spells, Option.map_some]
  | @array ts vs items =>
    rw [height] at deep
    have hitems : ofItems (depth - 1) ts = some vs := ofItems_of_denote items (by omega)
    rw [ofTree, if_neg (by omega), hitems, Option.map_some]
  | @object ms ns vs members order ascending =>
    rw [height] at deep
    have hdeep : membersHeight ms ≤ depth - 1 := by omega
    have hnone : Ascending [] := .nil
    obtain ⟨ws, hws, hascending, hmem⟩ := ofMembers_of_denote members hdeep hnone
    have heq : ws = vs := by
      refine hascending.eq_of_mem_iff ascending fun m => ?_
      rw [hmem, ← order.mem_iff]
      simp
    rw [ofTree, if_neg (by omega), hws, heq, Option.map_some]
termination_by sizeOf t

theorem ofItems_of_denote {ts : List Tree} {vs : List Value} (h : ItemsDenote ts vs) {depth : Nat}
    (deep : itemsHeight ts ≤ depth) : ofItems depth ts = some vs := by
  cases h with
  | nil => rfl
  | cons first rest =>
    rw [itemsHeight, Nat.max_le] at deep
    simp [ofItems, ofTree_of_denotes first deep.1, ofItems_of_denote rest deep.2]
termination_by sizeOf ts

/-- Members are added to those before them, and of each key the last one stays. -/
theorem ofMembers_of_denote {ms : List (List Piece × Tree)} {ns : List (Text × Value)}
    (h : MembersDenote ms ns) {depth : Nat} (deep : membersHeight ms ≤ depth)
    {done : List (Text × Value)} (hdone : Ascending done) :
    ∃ ws, ofMembers depth ms done = some ws ∧ Ascending ws ∧
      ∀ m, m ∈ ws ↔ m ∈ ns ∨ m ∈ done ∧ m.1 ∉ ns.map (·.1) := by
  cases h with
  | nil => exact ⟨done, rfl, hdone, by simp⟩
  | @last key k t v ms ns spells value rest once =>
    rw [membersHeight, Nat.max_le] at deep
    have hvalue : ofTree depth t = some v := ofTree_of_denotes value deep.1
    obtain ⟨ws, hws, hascending, hmem⟩ :=
      ofMembers_of_denote rest deep.2 (ascending_setMember hdone (k := k) (v := v))
    refine ⟨ws, by simp [ofMembers, textOf_of_spells spells, hvalue, hws], hascending, fun m => ?_⟩
    rw [hmem, mem_setMember hdone]
    have hkey : m = (k, v) → m.1 ∉ ns.map (·.1) := by
      rintro rfl
      exact once
    rw [List.map_cons, List.mem_cons, List.mem_cons]
    tauto
  | @overwritten key k t ms ns spells readable rest again =>
    rw [membersHeight, Nat.max_le] at deep
    obtain ⟨w, hw⟩ := Option.isSome_iff_exists.1 ((ofTree_isSome_iff depth t).2 ⟨deep.1, readable⟩)
    obtain ⟨ws, hws, hascending, hmem⟩ :=
      ofMembers_of_denote rest deep.2 (ascending_setMember hdone (k := k) (v := w))
    refine ⟨ws, by simp [ofMembers, textOf_of_spells spells, hw, hws], hascending, fun m => ?_⟩
    rw [hmem, mem_setMember hdone]
    have hkey : m = (k, w) → m.1 ∈ ns.map (·.1) := by
      rintro rfl
      exact again
    have hkey' : m.1 ∉ ns.map (·.1) → m.1 ≠ k := by
      intro hm heq
      exact hm (heq ▸ again)
    tauto
termination_by sizeOf ms

end

end Value

end StorageClient.Json
