import JsonBind.Proofs.Count.Agreement
import JsonBind.Proofs.Struct.Positional

/-!
# Counts given as arrays

The tables read records and responses from objects alone. Their record types take arrays as
well, at the root and for each of the records: the columns in order for a record, and the
list of records alone for a response.
-/

namespace JsonBind
namespace Count

theorem Record.findable : struct.Findable
  | ⟨0, _⟩ => rfl
  | ⟨1, _⟩ => rfl
  | ⟨2, _⟩ => rfl

theorem Response.findable : struct.Findable
  | ⟨0, _⟩ => rfl

theorem Record.ofTree_eq_ok_iff {v : Value} {record : Record} :
    struct.ofTree v = .ok record <->
      exists members : Members, struct.Named v members ∧
        (table.read (.object members) ()).result = .ok record := by
  have hobject : forall members : Members, (Value.object members).isObject = true := fun _ => rfl
  rw [Struct.ofTree_eq_ok_iff_named findable]
  simp only [result_read_eq_ok_iff, hobject, true_and]

theorem Response.slot_eq : forall slot slot' : struct.Index, slot = slot'
  | ⟨0, _⟩, ⟨0, _⟩ => rfl

theorem Response.slot?_eq_some_iff {key : String} {slot : struct.Index} :
    struct.slot? key = some slot <-> key = recordsField.name := by
  constructor
  · intro h
    have hkey := Struct.mem_spellings_of_slot? h
    rw [slot_eq slot ⟨0, by decide⟩] at hkey
    exact List.mem_singleton.mp hkey
  · intro h
    rw [h, slot_eq slot ⟨0, by decide⟩]
    rfl

theorem Response.ofTree_object_eq_ok_iff {members : Members} {response : Response} :
    struct.ofTree (.object members) = .ok response <->
      (members = [] ∧ response = .empty) ∨
      exists (items : List Value) (records : List Record),
        members = [(recordsField.name, .array items)] ∧ response = .ofRecords records ∧
          List.Forall₂ (fun item record => Record.struct.ofTree item = .ok record)
            items records := by
  change struct.ofMembers [] struct.empty members = .ok response <-> _
  rcases members with _ | ⟨⟨key, v⟩, _ | ⟨⟨other, w⟩, rest⟩⟩
  · constructor
    · intro h
      cases h
      exact Or.inl ⟨rfl, rfl⟩
    · intro h
      rcases h with ⟨_, rfl⟩ | ⟨_, _, hmembers, _⟩
      · rfl
      · cases hmembers
  · rw [Struct.ofMembers_cons_eq_ok_iff]
    constructor
    · intro h
      rcases h with ⟨slot, set, hslot, _, hset, hrest⟩
      rw [slot_eq slot ⟨0, by decide⟩] at hset
      rcases Slot.ofTree_list_eq_ok_iff.mp hset with ⟨items, records, rfl, hitems, rfl⟩
      cases slot?_eq_some_iff.mp hslot
      cases hrest
      exact Or.inr ⟨items, records, rfl, rfl, hitems⟩
    · intro h
      rcases h with ⟨hmembers, _⟩ | ⟨items, records, hmembers, rfl, hitems⟩
      · cases hmembers
      · cases hmembers
        exact ⟨⟨0, by decide⟩, _, slot?_eq_some_iff.mpr rfl, List.not_mem_nil,
          Slot.ofTree_list_eq_ok_iff.mpr ⟨items, records, rfl, hitems, rfl⟩, rfl⟩
  · constructor
    · intro h
      rcases Struct.ofMembers_cons_eq_ok_iff.mp h with ⟨slot, _, _, _, _, hrest⟩
      rcases Struct.ofMembers_cons_eq_ok_iff.mp hrest with ⟨slot', _, _, hfresh, _, _⟩
      exact absurd (slot_eq slot' slot ▸ List.mem_cons_self) hfresh
    · intro h
      rcases h with ⟨hmembers, _⟩ | ⟨_, _, hmembers, _⟩
      · cases hmembers
      · cases hmembers

/-- A record is read from its members, or from the values of its columns in order. A response is
read from its one member, or from the list of its records alone, and each of them may be given in
either way. The table reads the same record from the members. -/
theorem ofTree_iff_read_named (v : Value) :
    (forall record : Record, Record.struct.ofTree v = .ok record <->
      exists members : Members, Record.struct.Named v members ∧
        (Record.table.read (.object members) ()).result = .ok record) ∧
    forall response : Response, Response.struct.ofTree v = .ok response <->
      exists members : Members, Response.struct.Named v members ∧
        ((members = [] ∧ response = .empty) ∨
        exists (items : List Value) (records : List Record),
          members = [(Response.recordsField.name, .array items)] ∧
            response = .ofRecords records ∧
            List.Forall₂ (fun item record => exists columns : Members,
              Record.struct.Named item columns ∧
                (Record.table.read (.object columns) ()).result = .ok record) items records) := by
  constructor
  · intro record
    exact Record.ofTree_eq_ok_iff
  · intro response
    rw [Struct.ofTree_eq_ok_iff_named Response.findable]
    simp only [Response.ofTree_object_eq_ok_iff, Record.ofTree_eq_ok_iff]

/-- Arrays are taken for a record, for a response, and for the records of a response. -/
theorem ofTree_takes_arrays :
    (¬ forall (v : Value) (record : Record),
      Record.struct.ofTree v = .ok record -> v.isObject = true) ∧
    (¬ forall (v : Value) (response : Response),
      Response.struct.ofTree v = .ok response -> v.isObject = true) ∧
    ¬ forall (members : Members) (items : List Value) (response : Response),
      Response.struct.ofTree (.object members) = .ok response ->
        (Response.recordsField.name, .array items) ∈ members ->
          forall item : Value, item ∈ items -> item.isObject = true := by
  refine ⟨?_, ?_, ?_⟩
  · intro h
    cases h (.array [.string "5", .string "00:00:05"]) ⟨some 5, some "00:00:05", none⟩ rfl
  · intro h
    cases h (.array [.array []]) (.ofRecords []) rfl
  · intro h
    cases h [("records", .array [.array [.string "5"]])] _ (.ofRecords [⟨some 5, none, none⟩]) rfl
      List.mem_cons_self _ List.mem_cons_self

end Count
end JsonBind
