import JsonBind.Count.Record

/-!
# Count responses

The response to a count holds records. That there are none set is not the same
as an empty list of them: the first is written without the field. The body of a
response is an object with the records in it, or the bare array of the records.
-/

namespace JsonBind
namespace Count

structure Response where
  records : Option (List Record)
  deriving DecidableEq

namespace Response

def empty : Response :=
  ⟨none⟩

def ofRecords (records : List Record) : Response :=
  ⟨some records⟩

def setRecords (_ : Response) (records : List Record) : Response :=
  ⟨some records⟩

def takeRecords (response : Response) : Option (List Record) × Response :=
  (response.records, ⟨none⟩)

def recordsField : Field :=
  .named "records"

def table : Table Response Unit where
  name := "count_response"
  lenient := false
  empty := empty
  columns := [⟨recordsField, .objectArray Record.table.read setRecords⟩]

theorem table_declared :
    (Table.new table.name table.lenient empty).declareAll table.columns = .ok table := by
  rfl

def writeRecords (layout : Layout) : Option (List Record) -> Write Unit
  | some records => Builder.array recordsField.name (records.map (Model.write layout))
  | none => return ()

def write (layout : Layout) (response : Response) : Write Unit := do
  Builder.openObject
  writeRecords layout response.records
  Builder.closeObject

instance : Model Response where
  write := write
  read document := table.apply document ()

/-- Reads the body of a response, wrapped or bare. -/
def ofBody (document : Document) : Outcome Response :=
  match document.root with
  | .array items => do
      return ofRecords
        (← readItems table.name recordsField Record.table.read () 0 items)
  | .object _ => Model.read document
  | scalar =>
      .fail (.parse ("[" ++ table.name ++ "] expected an array or an object but found " ++
        scalar.kind))

def struct : Struct Response where
  name := "CountResponse"
  empty := empty
  slots :=
    [.list Record.struct "records" ["records"] (·.records)
      fun records _ => ⟨some records⟩]

end Response
end Count
end JsonBind
