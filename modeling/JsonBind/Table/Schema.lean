import JsonBind.Table

/-!
# Tables described by data

A schema says which fields a table has, and how the objects in them are read: by
a schema of their own, or not at all. The table of a schema keeps a record of
all that its setters were given. A nested reader hands its context on, and ends
its record with it.
-/

namespace JsonBind

inductive Entry where
  | string (text : String)
  | long (n : Int64)
  | boolean (flag : Bool)
  | object (entries : List (String × Entry))
  | objectArray (items : List (List (String × Entry)))

abbrev Entries : Type :=
  List (String × Entry)

mutual

inductive Schema where
  | mk (name : String) (lenient : Bool) (fields : List (Field × Content))

inductive Content where
  | string
  | long
  | boolean
  | object (item : ItemReader)
  | objectArray (item : ItemReader)

inductive ItemReader where
  | schema (schema : Schema)
  | fails (error : Error)

end

namespace Schema

def contextName : String :=
  "@context"

abbrev Read : Type :=
  Value -> Int64 -> Outcome Entries

def nestedRead (table : Table Entries Int64) : Read :=
  fun value context => do
    let entries ← table.read value context
    return entries ++ [(contextName, .long context)]

def record (name : String) (entry : Entry) (entries : Entries) : Entries :=
  entries ++ [(name, entry)]

mutual

/-- The table of a schema. Tables of nested schemas are made before the field that holds them is
declared, so theirs are the first clashes. -/
def table : Schema -> Except Clash (Table Entries Int64)
  | .mk name lenient fields => declareFields (.new name lenient []) fields

def declareFields (table : Table Entries Int64) :
    List (Field × Content) -> Except Clash (Table Entries Int64)
  | [] => .ok table
  | (field, content) :: fields => do
      let binding ← bindingOf field.name content
      declareFields (← table.declare ⟨field, binding⟩) fields

def bindingOf (name : String) : Content -> Except Clash (Binding Entries Int64)
  | .string => .ok (.string fun entries text => record name (.string text) entries)
  | .long => .ok (.long fun entries n => record name (.long n) entries)
  | .boolean => .ok (.boolean fun entries flag => record name (.boolean flag) entries)
  | .object item =>
      bindItem (fun read => .object read fun entries nested =>
        record name (.object nested) entries) item
  | .objectArray item =>
      bindItem (fun read => .objectArray read fun entries items =>
        record name (.objectArray items) entries) item

def bindItem (bind : Read -> Binding Entries Int64) :
    ItemReader -> Except Clash (Binding Entries Int64)
  | .schema schema => do
      return bind (nestedRead (← table schema))
  | .fails e => .ok (bind fun _ _ => .fail e)

end

end Schema
end JsonBind
