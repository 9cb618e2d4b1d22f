import JsonBind.Proofs.Count.Documents

/-!
# Counts within larger documents

Records and responses are also written where a document has been begun already: in open
objects and arrays, and as the items of arrays. There too, writing one comes to the same as
writing its tree at once, and where a tree could not be written nothing is changed.
-/

namespace JsonBind
namespace Count

open Builder (AppendsIn Call ComesTo Reachable array field fieldValue)

theorem Record.write_comesTo (record : Record) (b : Builder) :
    ComesTo record.write (struct.toTree record) b :=
  record.puts_write.comesTo fun room => Builder.openObject_bind_of_not_hasRoom room _

theorem Response.write_comesTo (layout : Layout) (response : Response) (b : Builder) :
    ComesTo (response.write layout) (struct.toTree response) b :=
  (response.puts_write layout).comesTo fun room => Builder.openObject_bind_of_not_hasRoom room _

/-- Wherever a builder stands, reachable or not, a record or a response is accepted exactly if a
value is, and then leaves what its tree would leave. A refused one changes nothing. -/
theorem write_comesTo_toTree (layout : Layout) (b : Builder) :
    (forall record : Record, exists v : Value,
      Model.toTree record = .ok v ∧ ComesTo (Model.write layout record) v b) ∧
    forall response : Response, exists v : Value,
      Model.toTree response = .ok v ∧ ComesTo (Model.write layout response) v b := by
  constructor
  · intro record
    exact ⟨_, Model.toTree_of_puts record.puts_write, record.write_comesTo b⟩
  · intro response
    exact ⟨_, Model.toTree_of_puts (response.puts_write .compact), response.write_comesTo layout b⟩

/-- An array of items that each append a value is accepted exactly if its name is, and then leaves
what the array of these values would leave. Refused, it changes nothing. Records and responses are
such items, also a response that holds an array itself. -/
theorem array_eq_fieldValue :
    (forall (writes : List (Write Unit)) (vs : List Value),
      List.Forall₂ (AppendsIn Reachable) writes vs ->
        forall (b : Builder) (name : String), Reachable b ->
          ((exists b' : Builder, (array name writes).run b = .ok () b') <->
            exists b' : Builder, (field name).run b = .ok () b') ∧
          (forall b' : Builder, (array name writes).run b = .ok () b' <->
            (fieldValue name (.array vs)).run b = .ok () b') ∧
          forall (e : Error) (b' : Builder), (array name writes).run b = .error e b' -> b' = b) ∧
    forall layout : Layout,
      (forall record : Record, exists v : Value,
        Model.toTree record = .ok v ∧ AppendsIn Reachable (Model.write layout record) v) ∧
      forall response : Response, exists v : Value,
        Model.toTree response = .ok v ∧ AppendsIn Reachable (Model.write layout response) v := by
  constructor
  · intro writes vs happends b name hreachable
    rw [Builder.run_array_eq_fieldValue happends hreachable name]
    refine ⟨Call.fieldValue_accepted_iff name _ hreachable.coherent, fun _ => Iff.rfl, ?_⟩
    intro e b' refused
    exact Call.error_keeps (c := .fieldValue name (.array vs)) hreachable.coherent refused
  · intro layout
    constructor
    · intro record
      exact ⟨_, Model.toTree_of_puts record.puts_write, record.puts_write.appends.appendsIn _⟩
    · intro response
      exact ⟨_, Model.toTree_of_puts (response.puts_write .compact),
        (response.puts_write layout).appends.appendsIn _⟩

def twoItems (layout : Layout) : List (Write Unit) :=
  [Model.write layout (Response.ofRecords [.ofCount 4, .empty]),
    Model.write layout (Record.ofCount 5)]

def twoTrees : List Value :=
  [.object [("records", .array [.object [("count", .long 4)], .object []])],
    .object [("count", .long 5)]]

/-- The items are written behind a member that is there already. Where a name waits for its value
they are refused. -/
theorem array_eq_fieldValue_behind :
    List.Forall₂ (AppendsIn Reachable) (twoItems .pretty) twoTrees ∧
    (Reachable ⟨[.object [("took", .long 3)] none], none⟩ ∧
      (array "counts" (twoItems .pretty)).run ⟨[.object [("took", .long 3)] none], none⟩ =
        .ok () ⟨[.object [("took", .long 3), ("counts", .array twoTrees)] none], none⟩) ∧
    Reachable Builder.abandoned ∧
      forall b' : Builder,
        (array "counts" (twoItems .pretty)).run Builder.abandoned ≠ .ok () b' := by
  have happends : List.Forall₂ (AppendsIn Reachable) (twoItems .pretty) twoTrees :=
    .cons ((Response.puts_write _ _).appends.appendsIn _)
      (.cons ((Record.puts_write _).appends.appendsIn _) .nil)
  have hstarted : Reachable ⟨[.object [("took", .long 3)] none], none⟩ :=
    .act (.call (.fieldValue "took" (.long 3))) (.act (.call (.piece .openObject)) .empty)
  have hwritten := array_eq_fieldValue.left _ _ happends _ "counts" hstarted
  have hrefused := array_eq_fieldValue.left _ _ happends _ "counts" Builder.reachable_abandoned
  refine ⟨happends, ⟨hstarted, (hwritten.right.left _).mpr rfl⟩, Builder.reachable_abandoned, ?_⟩
  intro b' accepted
  rcases hrefused.left.mp ⟨b', accepted⟩ with ⟨named, haccepted⟩
  cases haccepted

end Count
end JsonBind
