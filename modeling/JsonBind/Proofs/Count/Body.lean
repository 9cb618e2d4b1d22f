import JsonBind.Value.Depth
import JsonBind.Count.Response
import JsonBind.Proofs.Except
import JsonBind.Proofs.Table.Reading

/-!
# Bodies of responses

The body of a response is the array of its records, or the object that has that array under
their name. The bare array is read without the table, but by the same reader of records and
with the same names for errors. So both bodies mean the same: apart from the event that an
object tells, there is no difference between them.
-/

namespace JsonBind
namespace Count
namespace Response

theorem fillColumn_records (items : List Value) :
    table.fillColumn () [] empty ⟨0, by decide⟩ recordsField.name (.array items) = (do
      return ofRecords
        (← readItems table.name recordsField Record.table.read () 0 items)) := rfl

theorem fillAll_records (items : List Value) :
    table.fillAll () [] empty [(recordsField.name, .array items)] = (do
      return ofRecords
        (← readItems table.name recordsField Record.table.read () 0 items)) := by
  have hfind : table.find? recordsField.name = some ⟨0, by decide⟩ := rfl
  rw [Table.fillAll_cons_of_find? hfind]
  exact (bind_pure _).trans (fillColumn_records items)

theorem read_wrapped (items : List Value) :
    table.read (.object [(recordsField.name, .array items)]) () = (do
      .tell (.reading table.name 1)
      ofBody ⟨.array items⟩) := by
  change (Outcome.tell (.reading table.name 1) >>= fun _ => table.fillAll () [] empty _) = _
  rw [fillAll_records]
  rfl

theorem result_read_wrapped (items : List Value) :
    (table.read (.object [(recordsField.name, .array items)]) ()).result =
      (ofBody ⟨.array items⟩).result := by
  rw [read_wrapped]
  exact Outcome.result_tell_bind _ _

theorem result_ofBody_array (items : List Value) :
    (ofBody ⟨.array items⟩).result =
      (readItems table.name recordsField Record.table.read () 0 items).result.map ofRecords :=
  Outcome.result_bind_pure _ ofRecords

theorem result_ofBody_array_eq_ok_iff {items : List Value} {records : List Record} :
    (ofBody ⟨.array items⟩).result = .ok (ofRecords records) <->
      ItemsConvert Record.table.read () items records := by
  rw [result_ofBody_array, map_eq_ok_iff, ← result_readItems_eq_ok_iff]
  constructor
  · intro h
    rcases h with ⟨found, hread, heq⟩
    cases heq
    exact hread
  · intro hread
    exact ⟨records, hread, rfl⟩

theorem result_ofBody_array_eq_error_iff {items : List Value} {e : Error} :
    (ofBody ⟨.array items⟩).result = .error e <->
      exists (before after : List Value) (item : Value) (found : List Record)
        (objection : Objection),
        items = before ++ item :: after ∧ ItemsConvert Record.table.read () before found ∧
          ItemObjects Record.table.read () before.length item objection ∧
            e = objection.error table.name recordsField := by
  have hitems := @result_readItems_eq_error_iff _ _ Record.table.read () table.name recordsField 0
    items e
  simp only [Nat.zero_add] at hitems
  rw [result_ofBody_array, map_eq_error_iff, hitems]

theorem result_scalar {v : Value} (h : v.isContainer = false) :
    (exists reason : String, (ofBody ⟨v⟩).result = .error (.parse reason)) ∧
      exists reason : String, (table.read v ()).result = .error (.parse reason) := by
  cases v with
  | array items => cases h
  | object members => cases h
  | _ => exact ⟨⟨_, rfl⟩, _, rfl⟩

/-- A bare body and the wrapped one are read to the same response, or refused with the same error,
and the wrapped one is read by the table alone to the same again. It is read if all of its items are
records, and else the error is that of the first that is none. For all other objects, too, the body
is what the table reads. What is neither an array nor an object is no body and no response. -/
theorem ofBody_eq_read :
    (forall (items : List Value) (bare wrapped : Document),
      bare.root = .array items -> wrapped.root = .object [(recordsField.name, .array items)] ->
        (ofBody bare).result = (ofBody wrapped).result ∧
        (ofBody wrapped).result = (Model.read wrapped : Outcome Response).result ∧
        (forall records : List Record, (ofBody bare).result = .ok (ofRecords records) <->
          ItemsConvert Record.table.read () items records) ∧
        forall e : Error, (ofBody bare).result = .error e <->
          exists (before after : List Value) (item : Value) (found : List Record)
            (objection : Objection),
            items = before ++ item :: after ∧ ItemsConvert Record.table.read () before found ∧
              ItemObjects Record.table.read () before.length item objection ∧
                e = objection.error table.name recordsField) ∧
    (forall (members : Members) (document : Document), document.root = .object members ->
      ofBody document = Model.read document) ∧
    forall document : Document, document.root.isContainer = false ->
      (exists reason : String, (ofBody document).result = .error (.parse reason)) ∧
        exists reason : String,
          (Model.read document : Outcome Response).result = .error (.parse reason) := by
  refine ⟨?_, ?_, ?_⟩
  · intro items bare wrapped hbare hwrapped
    rcases bare with ⟨v⟩
    rcases wrapped with ⟨w⟩
    cases hbare
    cases hwrapped
    refine ⟨(result_read_wrapped items).symm, rfl, ?_, ?_⟩
    · intro records
      exact result_ofBody_array_eq_ok_iff
    · intro e
      exact result_ofBody_array_eq_error_iff
  · intro members document hroot
    rcases document with ⟨v⟩
    cases hroot
    rfl
  · intro document hscalar
    exact result_scalar hscalar

def mixed : List Value :=
  [.object [("dc", .string "12")], .object [("took", .long 3)]]

theorem ofBody_eq_read_mixed :
    ((ofBody ⟨.array mixed⟩).result =
        .error ((Objection.nestedItem 1 (.unknownField "count_record" "took")).error
          "count_response" recordsField) ∧
      (ofBody ⟨.array mixed⟩).result =
        (ofBody ⟨.object [(recordsField.name, .array mixed)]⟩).result ∧
      (ofBody ⟨.object [(recordsField.name, .array mixed)]⟩).result =
        (Model.read ⟨.object [(recordsField.name, .array mixed)]⟩ : Outcome Response).result) ∧
    ofBody ⟨.object [("took", .long 3)]⟩ = Model.read ⟨.object [("took", .long 3)]⟩ ∧
    exists reason : String, (ofBody ⟨.long 42⟩).result = .error (.parse reason) := by
  rcases ofBody_eq_read with ⟨harray, hobject, hscalar⟩
  rcases harray mixed ⟨.array mixed⟩ ⟨.object [(recordsField.name, .array mixed)]⟩ rfl rfl with
    ⟨hbare, hwrapped, _, herror⟩
  refine ⟨⟨?_, hbare, hwrapped⟩, hobject _ _ rfl, (hscalar _ rfl).left⟩
  apply (herror _).mpr
  exact ⟨[_], [], _, [.ofCount 12], _, rfl, .cons ⟨rfl, rfl⟩ .nil, .nestedItem rfl rfl, rfl⟩

end Response
end Count
end JsonBind
