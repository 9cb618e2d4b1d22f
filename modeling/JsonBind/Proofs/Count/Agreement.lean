import JsonBind.Count.Response
import JsonBind.Proofs.Struct.Table

/-!
# Tables and record types of counts agree

Records and responses are read from trees in two ways, by their tables and by their
record types. The record types also take arrays for records; apart from that, both ways
read the same trees to the same records and responses.
-/

namespace JsonBind
namespace Count

theorem Record.mirrors : table.Mirrors () (fun _ _ => True) struct where
  strict := rfl
  empty := rfl
  columns := by
    refine .cons ?_ (.cons ?_ (.cons ?_ .nil))
    · exact Column.mirrors_long (by simp [epochField, Field.spellings]) (fun _ _ => trivial) _ _
    · refine Column.mirrors_string ?_ (fun _ _ => trivial) _ _
      intro key
      simp [timestampField, Field.spellings]
      tauto
    · exact Column.mirrors_long (by simp [countField, Field.spellings]) (fun _ _ => trivial) _ _

theorem Record.result_read_eq_ok_iff (v : Value) (record : Record) :
    (table.read v ()).result = .ok record <->
      v.isObject = true ∧ struct.ofTree v = .ok record := by
  rw [mirrors.result_read_eq_ok_iff]
  constructor
  · rintro ⟨members, rfl, _, hstruct⟩
    exact ⟨rfl, hstruct⟩
  · rintro ⟨hobject, hstruct⟩
    cases v with
    | object members => exact ⟨members, rfl, fun _ _ => trivial, hstruct⟩
    | _ => cases hobject

namespace Response

/-- Under the name of the records there is no array that has an array among its items. -/
def Unnested (v : Value) : Prop :=
  forall (members : Members) (items inner : List Value), v = .object members ->
    (recordsField.name, .array items) ∈ members -> .array inner ∉ items

theorem mirrors :
    table.Mirrors () (fun key v => forall items inner : List Value, key = recordsField.name ->
      v = .array items -> .array inner ∉ items) struct where
  strict := rfl
  empty := rfl
  columns := by
    refine .cons (Column.mirrors_list ?_ Record.result_read_eq_ok_iff ?_ _ _) .nil
    · intro key
      rfl
    · intro key items hkey
      have hname : key = recordsField.name := List.mem_singleton.mp hkey
      constructor
      · intro h inner
        exact h items inner hname rfl
      · intro h other inner _ heq
        cases heq
        exact h inner

theorem unnested_object_iff (members : Members) :
    Unnested (.object members) <->
      forall member : String × Value, member ∈ members ->
        forall items inner : List Value, member.1 = recordsField.name ->
          member.2 = .array items -> .array inner ∉ items := by
  constructor
  · rintro h ⟨key, v⟩ hmem items inner rfl rfl
    exact h members items inner rfl hmem
  · intro h other items inner heq hmem
    cases heq
    exact h _ hmem items inner rfl rfl

theorem result_read_eq_ok_iff (v : Value) (response : Response) :
    (table.read v ()).result = .ok response <->
      v.isObject = true ∧ Unnested v ∧ struct.ofTree v = .ok response := by
  rw [mirrors.result_read_eq_ok_iff]
  constructor
  · rintro ⟨members, rfl, hflat, hstruct⟩
    exact ⟨rfl, (unnested_object_iff members).mpr hflat, hstruct⟩
  · rintro ⟨hobject, hflat, hstruct⟩
    cases v with
    | object members =>
        exact ⟨members, rfl, (unnested_object_iff members).mp hflat, hstruct⟩
    | _ => cases hobject

end Response

/-- What the tables read, the record types read as well, and to the same. Of what the record types
read, the tables read the objects; in a response none of the records may be given as an array. -/
theorem result_read_iff_ofTree (v : Value) :
    (forall record : Record, (Record.table.read v ()).result = .ok record <->
      v.isObject = true ∧ Record.struct.ofTree v = .ok record) ∧
    forall response : Response, (Response.table.read v ()).result = .ok response <->
      v.isObject = true ∧ Response.Unnested v ∧ Response.struct.ofTree v = .ok response :=
  ⟨Record.result_read_eq_ok_iff v, Response.result_read_eq_ok_iff v⟩

end Count
end JsonBind
