import JsonBind.Proofs.Count.Body
import JsonBind.Proofs.Count.Positional
import JsonBind.Proofs.Table.Events

/-!
# What reading counts tells

Nothing is skipped in counts, so all events are those of objects that are read: one for the
response, if it is an object, and one for each record up to the first that is refused.
-/

namespace JsonBind
namespace Count

open Table (TellsAll events_read_object_iff events_read_of_not_isObject exists_tellsAll)

namespace Record

theorem eq_nil_of_tells {slot : table.Index} {v : Value} {told : List Event}
    (h : (table.columns.get slot).binding.Tells () v told) : told = [] := by
  match slot with
  | ⟨0, _⟩ =>
      cases h
      rfl
  | ⟨1, _⟩ =>
      cases h
      rfl
  | ⟨2, _⟩ =>
      cases h
      rfl

theorem events_read_object (members : Members) :
    (table.read (.object members) ()).events = [.reading table.name members.length] := by
  have hun : table.Unambiguous := Table.unambiguous_of_declareAll table_declared
  rcases exists_tellsAll hun () [] members with ⟨told, htold⟩
  have hnone : forall event : Event, event ∈ told -> False := by
    apply htold.forall_mem fun _ => False
    · intro key hlenient
      cases hlenient
    · intro slot v told' htells event hmem
      rw [eq_nil_of_tells htells] at hmem
      cases hmem
  rw [List.eq_nil_iff_forall_not_mem.mpr hnone] at htold
  exact (events_read_object_iff hun).mpr ⟨[], htold, rfl⟩

theorem isReading_of_mem_events {v : Value} {event : Event}
    (h : event ∈ (table.read v ()).events) : event.isReading = true := by
  cases v with
  | object members =>
      rw [events_read_object] at h
      rw [List.mem_singleton.mp h]
      rfl
  | _ => cases h

theorem length_events_of_convert {items : List Value} {records : List Record}
    (h : ItemsConvert table.read () items records) :
    (items.flatMap fun item => (table.read item ()).events).length = records.length := by
  induction h with
  | nil => rfl
  | cons hitem _ ih =>
      rcases Table.isObject_of_result_read hitem.right with ⟨members, rfl⟩
      rw [List.flatMap_cons, events_read_object, List.length_append, ih, List.length_singleton,
        List.length_cons, Nat.add_comm]

end Record

namespace Response

theorem isReading_of_itemsTell {items : List Value} {told : List Event}
    (h : ItemsTell Record.table.read () items told) {event : Event} (hmem : event ∈ told) :
    event.isReading = true := by
  have hread : forall items : List Value,
      event ∈ (items.flatMap fun item => (Record.table.read item ()).events) ->
        event.isReading = true := by
    intro items hmem
    rcases List.mem_flatMap.mp hmem with ⟨item, _, hevent⟩
    exact Record.isReading_of_mem_events hevent
  cases h with
  | all _ => exact hread _ hmem
  | otherItem _ _ => exact hread _ hmem
  | nestedItem _ _ _ => exact hread _ hmem

theorem isReading_of_mem_events {v : Value} {event : Event}
    (h : event ∈ (table.read v ()).events) : event.isReading = true := by
  have hun : table.Unambiguous := Table.unambiguous_of_declareAll table_declared
  cases v with
  | object members =>
      rcases (events_read_object_iff hun).mp rfl with ⟨told, htold, hevents⟩
      rw [hevents] at h
      rcases List.mem_cons.mp h with rfl | hmem
      · rfl
      · refine htold.forall_mem (·.isReading = true) ?_ ?_ event hmem
        · intro key hlenient
          cases hlenient
        · intro slot v told' htells other hother
          rw [List.mem_singleton.mp (List.get_mem table.columns slot)] at htells
          cases htells with
          | objectArray _ hitems => exact isReading_of_itemsTell hitems hother
  | _ => cases h

theorem isReading_of_mem_events_ofBody {document : Document} {event : Event}
    (h : event ∈ (ofBody document).events) : event.isReading = true := by
  rcases document with ⟨root⟩
  cases root with
  | object members => exact isReading_of_mem_events h
  | array items =>
      rcases exists_itemsTell Record.table.read () items with ⟨told, hitems⟩
      have hevents : (ofBody ⟨.array items⟩).events = told :=
        (Outcome.events_bind_pure _ _).trans (events_readItems hitems 0)
      rw [hevents] at h
      exact isReading_of_itemsTell hitems h
  | _ => cases h

theorem length_events_of_result_read {v : Value} {response : Response}
    (h : (table.read v ()).result = .ok response) :
    (table.read v ()).events.length = 1 + (response.records.getD []).length := by
  rcases Table.isObject_of_result_read h with ⟨members, rfl⟩
  rcases (result_read_eq_ok_iff _ _).mp h with ⟨_, _, hstruct⟩
  rcases ofTree_object_eq_ok_iff.mp hstruct with ⟨rfl, rfl⟩ | ⟨items, records, rfl, rfl, _⟩
  · rfl
  · rw [result_read_wrapped] at h
    have hitems := result_ofBody_array_eq_ok_iff.mp h
    have hevents : (ofBody ⟨.array items⟩).events =
        items.flatMap fun item => (Record.table.read item ()).events :=
      (Outcome.events_bind_pure _ _).trans (events_readItems (.all hitems) 0)
    rw [read_wrapped, Outcome.events_tell_bind, hevents, List.length_cons,
      Record.length_events_of_convert hitems, Nat.add_comm]
    rfl

end Response

/-- Reading by a declared table tells nothing of a value that is no object. Of an object it tells
how many members it has, and then what the members tell in order, up to the first that breaks the
reading; a nested reader that reads by a table tells what that table tells. Reading counts skips
nothing, and a response that is read tells of itself and of each of its records. -/
theorem reading_tells_visit :
    (forall {τ κ : Type} {table : Table τ κ}, table.Declared -> forall context : κ,
      (forall v : Value, v.isObject = false -> (table.read v context).events = []) ∧
      (forall (members : Members) (events : List Event),
        (table.read (.object members) context).events = events <->
          exists told : List Event, TellsAll table context [] members told ∧
            events = .reading table.name members.length :: told) ∧
      forall {υ : Type} (make : τ -> κ -> υ) (v : Value),
        Outcome.events (do return make (← table.read v context) context) =
          (table.read v context).events) ∧
    (forall (v : Value) (event : Event), event ∈ (Record.table.read v ()).events ->
      event.isReading = true) ∧
    (forall (v : Value) (event : Event), event ∈ (Response.table.read v ()).events ->
      event.isReading = true) ∧
    (forall (document : Document) (event : Event), event ∈ (Response.ofBody document).events ->
      event.isReading = true) ∧
    forall (v : Value) (response : Response),
      (Response.table.read v ()).result = .ok response ->
        (Response.table.read v ()).events.length = 1 + (response.records.getD []).length := by
  refine ⟨?_, ?_, ?_, ?_, ?_⟩
  · intro τ κ table hdeclared context
    refine ⟨fun v => events_read_of_not_isObject, ?_, ?_⟩
    · intro members events
      exact events_read_object_iff hdeclared.unambiguous
    · intro υ make v
      exact Outcome.events_bind_pure _ _
  · intro v event
    exact Record.isReading_of_mem_events
  · intro v event
    exact Response.isReading_of_mem_events
  · intro document event
    exact Response.isReading_of_mem_events_ofBody
  · intro v response
    exact Response.length_events_of_result_read

def shards : Table (List Int64) Unit where
  name := "shards"
  lenient := true
  empty := []
  columns :=
    [⟨.named "sizes", .objectArray
      (Table.read ⟨"size", false, 0, [⟨.named "bytes", .long fun _ n => n⟩]⟩) fun _ ns => ns⟩]

/-- A member is skipped, and the second of three sizes is refused; what comes behind it is not
visited. -/
theorem reading_tells_visit_shards :
    shards.Declared ∧
      (exists told : List Event,
        TellsAll shards () []
          [ ("x", .null),
            ("sizes", .array [.object [("bytes", .long 1)], .object [("b", .null)], .object []]),
            ("y", .null) ] told ∧
        [.reading "shards" 3, .skipping "shards" "x", .reading "size" 1, .reading "size" 1] =
          .reading "shards" 3 :: told) ∧
      (Response.table.read
        (.object [("records", .array [.object [], .object []])]) ()).events.length = 3 := by
  have hdeclared : shards.Declared := rfl
  rcases reading_tells_visit with ⟨hvisit, _, _, _, hresponse⟩
  refine ⟨hdeclared, ((hvisit hdeclared ()).right.left _ _).mp rfl, ?_⟩
  exact hresponse _ (.ofRecords [Record.empty, Record.empty]) rfl

end Count
end JsonBind
