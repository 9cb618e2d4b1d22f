import JsonBind.Table.Field
import JsonBind.Outcome
import JsonBind.Document

/-!
# Tables

A table binds the fields of an object to setters. It reads an object member by
member, in document order: a member is looked up by its spelling, its shape is
checked, its value is converted, and the setter puts it into what is being
built. Nested objects are read by readers of their own, which get the context
that the table was given.

A table is made by declaring its columns one after the other. No spelling may be
declared by two of them.
-/

namespace JsonBind

inductive Binding (τ κ : Type) : Type 1 where
  | string (set : τ -> String -> τ)
  | long (set : τ -> Int64 -> τ)
  | boolean (set : τ -> Bool -> τ)
  | object {υ : Type} (read : Value -> κ -> Outcome υ) (set : τ -> υ -> τ)
  | objectArray {υ : Type} (read : Value -> κ -> Outcome υ) (set : τ -> List υ -> τ)

namespace Binding

def shape {τ κ : Type} : Binding τ κ -> Shape
  | .string _ => .string
  | .long _ => .long
  | .boolean _ => .boolean
  | .object _ _ => .object
  | .objectArray _ _ => .objectArray

end Binding

structure Column (τ κ : Type) : Type 1 where
  field : Field
  binding : Binding τ κ

structure Table (τ κ : Type) : Type 1 where
  name : String
  -- Whether undeclared members are skipped, and not refused.
  lenient : Bool
  empty : τ
  columns : List (Column τ κ)

/-!
# Conversion
-/

inductive Objection where
  | duplicate (key : String)
  | otherShape (expected : Shape) (value : Value)
  | notLong (value : Value)
  | notBoolean (value : Value)
  | nested (error : Error)
  | otherItem (index : Nat) (item : Value)
  | nestedItem (index : Nat) (error : Error)

namespace Objection

def item (index : Nat) : String :=
  "element " ++ String.ofList (Decimal.natural index)

def reason : Objection -> String
  | .duplicate key => "duplicate field [" ++ key ++ "]"
  | .otherShape expected value =>
      "expected " ++ expected.description ++ " but found " ++ value.kind
  | .notLong value => "[" ++ value.compact ++ "] is not a long"
  | .notBoolean value => "[" ++ value.compact ++ "] is not a boolean"
  | .nested e => e.message
  | .otherItem index value => item index ++ " is " ++ value.kind ++ ", expected an object"
  | .nestedItem index e => item index ++ ": " ++ e.message

def error (objection : Objection) (table : String) (field : Field) : Error :=
  .inField table field.name objection.reason

end Objection

namespace Value

def long? : Value -> Option Int64
  | .number n => n.long?
  | .string text => Text.long? text
  | _ => none

def boolean? : Value -> Option Bool
  | .bool flag => some flag
  | .string text =>
      if text = "true" then some true
      else if text = "false" then some false
      else none
  | _ => none

end Value

/-- Reads the items of an array from the one numbered `index` on. Each has to be an object; the
first that is not, or that cannot be read, stops it. -/
def readItems {υ κ : Type} (table : String) (field : Field) (read : Value -> κ -> Outcome υ)
    (context : κ) (index : Nat) : List Value -> Outcome (List υ)
  | [] => return []
  | item :: rest => do
      if item.isObject then
        let first ← (read item context).mapError fun e =>
          (Objection.nestedItem index e).error table field
        let others ← readItems table field read context (index + 1) rest
        return first :: others
      else .fail ((Objection.otherItem index item).error table field)

namespace Column

variable {τ κ : Type}

def fill (column : Column τ κ) (table : String) (context : κ) (target : τ) (value : Value) :
    Outcome τ :=
  let refuse (objection : Objection) : Outcome τ := .fail (objection.error table column.field)
  match column.binding with
  | .string set =>
      match value with
      | .string text => return set target text
      | _ => return set target ""
  | .long set =>
      match value.long? with
      | some n => return set target n
      | none => refuse (.notLong value)
  | .boolean set =>
      match value.boolean? with
      | some flag => return set target flag
      | none => refuse (.notBoolean value)
  | .object read set => do
      let nested ← (read value context).mapError fun e =>
        (Objection.nested e).error table column.field
      return set target nested
  | .objectArray read set => do
      let items := match value with
        | .array items => items
        | _ => []
      let read ← readItems table column.field read context 0 items
      return set target read

end Column

/-!
# Declaration
-/

structure Clash where
  table : String
  spelling : String
  deriving DecidableEq

namespace Clash

def message (clash : Clash) : String :=
  "[" ++ clash.table ++ "] field [" ++ clash.spelling ++ "] is declared more than once"

end Clash

namespace Table

variable {τ κ : Type}

def new (name : String) (lenient : Bool) (empty : τ) : Table τ κ :=
  ⟨name, lenient, empty, []⟩

abbrev Index (table : Table τ κ) : Type :=
  Fin table.columns.length

def find? (table : Table τ κ) (key : String) : Option table.Index :=
  table.columns.findFinIdx? fun column => column.field.accepts key

/-- Adds a column, unless one of its spellings is taken already. -/
def declare (table : Table τ κ) (column : Column τ κ) : Except Clash (Table τ κ) :=
  match column.field.spellings.find? fun spelling => (table.find? spelling).isSome with
  | some spelling => .error ⟨table.name, spelling⟩
  | none => .ok { table with columns := table.columns ++ [column] }

def declareAll (table : Table τ κ) : List (Column τ κ) -> Except Clash (Table τ κ)
  | [] => .ok table
  | column :: columns =>
      match table.declare column with
      | .error clash => .error clash
      | .ok table => declareAll table columns

def fieldNames (table : Table τ κ) : List String :=
  table.columns.map (·.field.name)

def description (table : Table τ κ) : String :=
  "ObjectParser \x7b name: " ++ Text.quoted table.name ++ ", ignore_unknown_fields: " ++
    (if table.lenient then "true" else "false") ++ ", fields: [" ++
    ", ".intercalate (table.fieldNames.map Text.quoted) ++ "] \x7d"

/-!
# Reading
-/

/-- Puts one member into its column, which may not have been filled before. -/
def fillColumn (table : Table τ κ) (context : κ) (filled : List table.Index) (target : τ)
    (slot : table.Index) (key : String) (value : Value) : Outcome τ :=
  let column := table.columns.get slot
  let refuse (objection : Objection) : Outcome τ :=
    .fail (objection.error table.name column.field)
  if slot ∈ filled then refuse (.duplicate key)
  else if column.binding.shape.accepts value then column.fill table.name context target value
  else refuse (.otherShape column.binding.shape value)

def fillAll (table : Table τ κ) (context : κ) (filled : List table.Index) (target : τ) :
    Members -> Outcome τ
  | [] => return target
  | (key, value) :: rest =>
      match table.find? key with
      | some slot => do
          let target ← table.fillColumn context filled target slot key value
          fillAll table context (slot :: filled) target rest
      | none =>
          if table.lenient then do
            .tell (.skipping table.name key)
            fillAll table context filled target rest
          else .fail (.unknownField table.name key)

def read (table : Table τ κ) (value : Value) (context : κ) : Outcome τ :=
  match value with
  | .object members => do
      .tell (.reading table.name members.length)
      table.fillAll context [] table.empty members
  | _ =>
      .fail (.parse ("[" ++ table.name ++ "] expected an object but found " ++ value.kind))

def apply (table : Table τ κ) (document : Document) (context : κ) : Outcome τ :=
  table.read document.root context

end Table
end JsonBind
