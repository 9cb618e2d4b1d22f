import JsonBind.Proofs.Struct.Slot

/-!
# Records given as arrays

A record type also takes an array, whose items fill the slots in order. That is no other
reading than that of objects: an array is read as the object in which its items have the
names of the slots, and it may not have more items than there are slots.
-/

namespace JsonBind
namespace Struct

variable {σ : Type}

def names (struct : Struct σ) : List String :=
  struct.slots.map (·.name)

/-- The members that a value gives a record. Those of an object are its own; the items of an array
get the names of the slots. -/
inductive Named (struct : Struct σ) : Value -> Members -> Prop where
  | object (members : Members) : Named struct (.object members) members
  | array {items : List Value} :
      items.length ≤ struct.slots.length ->
      Named struct (.array items) (struct.names.zip items)

def Findable (struct : Struct σ) : Prop :=
  forall slot : struct.Index, struct.slot? (struct.slots.get slot).name = some slot

variable {struct : Struct σ}

/-- From the `k`th slot on, with earlier ones filled alone, filling by position is filling by
name. -/
theorem ofItems_drop_eq_ok_iff (hfindable : struct.Findable) {length : Nat} {items : List Value}
    {k : Nat} {filled : List struct.Index}
    (hfilled : forall slot : struct.Index, slot ∈ filled -> slot.val < k) {record result : σ} :
    ofItems length (struct.slots.drop k) items record = .ok result <->
      items.length ≤ (struct.slots.drop k).length ∧
        struct.ofMembers filled record ((struct.names.drop k).zip items) = .ok result := by
  induction items generalizing k filled record with
  | nil => simp [ofItems, ofMembers]
  | cons item items ih =>
      by_cases hk : k < struct.slots.length
      · have hslots : struct.slots.drop k =
            struct.slots.get ⟨k, hk⟩ :: struct.slots.drop (k + 1) := List.drop_eq_getElem_cons hk
        have hnames : struct.names.drop k =
            (struct.slots.get ⟨k, hk⟩).name :: struct.names.drop (k + 1) := by
          rw [names, ← List.map_drop, hslots, List.map_cons, List.map_drop]
        have hfresh : ⟨k, hk⟩ ∉ filled := fun hmem => Nat.lt_irrefl k (hfilled _ hmem)
        have hlater : forall slot : struct.Index, slot ∈ ⟨k, hk⟩ :: filled -> slot.val < k + 1 := by
          intro slot hmem
          cases hmem with
          | head => exact Nat.lt_succ_self k
          | tail _ hmem => exact Nat.lt_succ_of_lt (hfilled slot hmem)
        rw [hslots, hnames, List.zip_cons_cons, ofItems_cons_eq_ok_iff, ofMembers_cons_eq_ok_iff,
          List.length_cons, List.length_cons, Nat.succ_le_succ_iff]
        constructor
        · intro h
          rcases h with ⟨set, hset, hrest⟩
          rcases (ih hlater).mp hrest with ⟨hlength, hmembers⟩
          exact ⟨hlength, ⟨k, hk⟩, set, hfindable _, hfresh, hset, hmembers⟩
        · intro h
          rcases h with ⟨hlength, slot, set, hslot, _, hset, hmembers⟩
          cases (hfindable ⟨k, hk⟩).symm.trans hslot
          exact ⟨set, hset, (ih hlater).mpr ⟨hlength, hmembers⟩⟩
      · rw [List.drop_eq_nil_of_le (Nat.le_of_not_lt hk), ofItems]
        simp

/-- A record type reads objects, and arrays as the objects that they stand for. -/
theorem ofTree_eq_ok_iff_named (hfindable : struct.Findable) {v : Value} {record : σ} :
    struct.ofTree v = .ok record <->
      exists members : Members, struct.Named v members ∧
        struct.ofTree (.object members) = .ok record := by
  cases v with
  | object members =>
      constructor
      · intro h
        exact ⟨members, .object members, h⟩
      · intro h
        rcases h with ⟨_, hnamed, hrecord⟩
        cases hnamed
        exact hrecord
  | array items =>
      have hitems := @ofItems_drop_eq_ok_iff _ struct hfindable items.length items 0 []
        (fun _ hmem => nomatch hmem) struct.empty record
      constructor
      · intro h
        rcases hitems.mp h with ⟨hlength, hrecord⟩
        exact ⟨_, .array hlength, hrecord⟩
      · intro h
        rcases h with ⟨_, hnamed, hrecord⟩
        cases hnamed with
        | array hlength => exact hitems.mpr ⟨hlength, hrecord⟩
  | _ =>
      constructor
      · intro h
        cases h
      · intro h
        rcases h with ⟨_, hnamed, _⟩
        cases hnamed

end Struct
end JsonBind
