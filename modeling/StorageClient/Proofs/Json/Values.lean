import StorageClient.Json.Value

/-!
Which trees have a value: those that are not nested too deep and whose strings and numbers stand
for something.
-/

namespace StorageClient.Json

namespace Tree

mutual

def height : Tree → Nat
  | .null | .bool _ | .number _ | .string _ => 0
  | .array vs => itemsHeight vs + 1
  | .object ms => membersHeight ms + 1

def itemsHeight : List Tree → Nat
  | [] => 0
  | v :: vs => max v.height (itemsHeight vs)

def membersHeight : List (List Piece × Tree) → Nat
  | [] => 0
  | (_, v) :: ms => max v.height (membersHeight ms)

end

mutual

/-- Every string spells a text, keys included, and every number is in range. -/
def Meaningful : Tree → Prop
  | .null | .bool _ => True
  | .number n => n.value.isSome
  | .string ps => (textOf ps).isSome
  | .array vs => ItemsMeaningful vs
  | .object ms => MembersMeaningful ms

def ItemsMeaningful : List Tree → Prop
  | [] => True
  | v :: vs => v.Meaningful ∧ ItemsMeaningful vs

def MembersMeaningful : List (List Piece × Tree) → Prop
  | [] => True
  | (key, v) :: ms => (textOf key).isSome ∧ v.Meaningful ∧ MembersMeaningful ms

end

end Tree

namespace Value

open Json.Tree

mutual

theorem ofTree_isSome_iff (depth : Nat) (v : Tree) :
    (ofTree depth v).isSome ↔ v.height ≤ depth ∧ v.Meaningful := by
  cases v with
  | null | bool _ | number _ | string _ => simp [ofTree, height, Meaningful]
  | array vs =>
    have hitems := ofItems_isSome_iff (depth - 1) vs
    simp only [ofTree, height, Meaningful]
    split
    · simp; omega
    · rw [Option.isSome_map, hitems]
      exact and_congr_left' (by omega)
  | object ms =>
    have hmembers := ofMembers_isSome_iff (depth - 1) ms []
    simp only [ofTree, height, Meaningful]
    split
    · simp; omega
    · rw [Option.isSome_map, hmembers]
      exact and_congr_left' (by omega)
termination_by sizeOf v

theorem ofItems_isSome_iff (depth : Nat) (vs : List Tree) :
    (ofItems depth vs).isSome ↔ itemsHeight vs ≤ depth ∧ ItemsMeaningful vs := by
  cases vs with
  | nil => simp [ofItems, itemsHeight, ItemsMeaningful]
  | cons v vs =>
    have hfirst := ofTree_isSome_iff depth v
    have hrest := ofItems_isSome_iff depth vs
    simp only [ofItems, itemsHeight, ItemsMeaningful, Nat.max_le]
    cases hv : ofTree depth v <;> cases hvs : ofItems depth vs <;>
      simp_all [and_and_and_comm]
termination_by sizeOf vs

theorem ofMembers_isSome_iff (depth : Nat) (ms : List (List Piece × Tree))
    (done : List (Text × Value)) :
    (ofMembers depth ms done).isSome ↔ membersHeight ms ≤ depth ∧ MembersMeaningful ms := by
  match ms with
  | [] => simp [ofMembers, membersHeight, MembersMeaningful]
  | (key, v) :: ms =>
    have hfirst := ofTree_isSome_iff depth v
    simp only [ofMembers, membersHeight, MembersMeaningful, Nat.max_le]
    cases hk : textOf key with
    | none => simp
    | some k =>
      cases hv : ofTree depth v with
      | none => simp_all
      | some w =>
        have hrest := ofMembers_isSome_iff depth ms (setMember k w done)
        simp_all
termination_by sizeOf ms

end

end Value

end StorageClient.Json
