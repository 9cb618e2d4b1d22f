import JsonBind.Proofs.Value.Everywhere

/-!
# Settled trees

In a document as it is written an object may have several members of one name. It is
settled by writing the members one after the other: each name then stands once.
-/

namespace JsonBind
namespace Value

mutual

/-- The tree in which the members of each object have been inserted, the first one first. -/
def settled : Value -> Value
  | .null => .null
  | .bool flag => .bool flag
  | .number n => .number n
  | .string text => .string text
  | .array items => .array (settledItems items)
  | .object members => .object (Members.ofWrites (settledMembers members))

def settledItems : List Value -> List Value
  | [] => []
  | item :: rest => item.settled :: settledItems rest

def settledMembers : List (String × Value) -> List (String × Value)
  | [] => []
  | (name, value) :: rest => (name, value.settled) :: settledMembers rest

end

theorem settledItems_eq_map (items : List Value) : settledItems items = items.map settled := by
  induction items with
  | nil => rfl
  | cons item rest ih => rw [settledItems, ih, List.map_cons]

theorem settledMembers_eq_map (members : Members) :
    settledMembers members = members.map fun member => (member.1, member.2.settled) := by
  induction members with
  | nil => rfl
  | cons member rest ih => rw [settledMembers, ih, List.map_cons]

theorem settled_array (items : List Value) :
    (array items).settled = .array (items.map settled) := by
  rw [settled, settledItems_eq_map]

theorem settled_object (members : Members) :
    (object members).settled =
      .object (Members.ofWrites (members.map fun member => (member.1, member.2.settled))) := by
  rw [settled, settledMembers_eq_map]

theorem settled_of_not_isContainer {v : Value} (h : v.isContainer = false) : v.settled = v := by
  cases v with
  | array items => cases h
  | object members => cases h
  | _ => rw [settled]

theorem settled_of_distinct {v : Value} (h : v.Distinct) : v.settled = v := by
  induction v using Value.induction with
  | array items ih =>
      have hitems : forall item : Value, item ∈ items -> item.settled = item := by
        intro item hmem
        exact ih item hmem (h.child hmem)
      rw [settled_array, List.map_congr_left hitems, List.map_id']
  | object members ih =>
      have hmembers : forall member : String × Value, member ∈ members ->
          (member.1, member.2.settled) = member := by
        intro member hmem
        rw [ih member hmem (h.child (List.mem_map_of_mem hmem))]
      rw [settled_object, List.map_congr_left hmembers, List.map_id',
        Members.ofWrites_of_nodup (h.here members rfl)]
  | _ => rw [settled]

end Value
end JsonBind
