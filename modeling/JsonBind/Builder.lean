import JsonBind.Value.Text
import JsonBind.Text.Utf8
import JsonBind.Error
import JsonBind.Sink

/-!
# Builders

A builder takes the pieces of a document one call at a time. Containers that are
open wait in a stack of scopes, the innermost first; a closed one becomes a
value of the scope around it, or the root. In an object a value follows its
name.

A call that makes no sense where it comes is an error. The builder that is left
then is part of the result: other calls may follow.
-/

namespace JsonBind

/-- An open container. In an object, a name may wait for its value. -/
inductive Scope where
  | object (members : Members) (pending : Option String)
  | array (items : Array Value)

structure Builder where
  scopes : List Scope
  root : Option Value

abbrev Write (α : Type) : Type :=
  EStateM Error Builder α

namespace Builder

def empty : Builder :=
  ⟨[], none⟩

inductive Misuse where
  | containerWithoutName (call : String)
  | valueWithoutName
  | secondRoot
  | nameWithoutValue (name : String)
  | nameOutsideObject (name : String)
  | objectEndInArray
  | objectEndOutside
  | arrayEndInObject
  | arrayEndOutside
  | stillOpen (scopes : Nat)
  | nothingWritten

namespace Misuse

def message : Misuse -> String
  | .containerWithoutName call => call ++ " inside an object requires a field name"
  | .valueWithoutName => "value written into an object without a field name"
  | .secondRoot => "document already has a root value"
  | .nameWithoutValue name => "field [" ++ name ++ "] has no value"
  | .nameOutsideObject name => "field [" ++ name ++ "] written outside of an object"
  | .objectEndInArray => "end_object called inside an array"
  | .objectEndOutside => "end_object called without an open object"
  | .arrayEndInObject => "end_array called inside an object"
  | .arrayEndOutside => "end_array called without an open array"
  | .stillOpen scopes => String.ofList (Decimal.natural scopes) ++ " scope(s) still open"
  | .nothingWritten => "nothing was written"

def error (misuse : Misuse) : Error :=
  .invalidOperation misuse.message

end Misuse

def refuse {α : Type} (misuse : Misuse) : Write α :=
  throw misuse.error

/-!
# Calls
-/

def checkRoom (call : String) : Write Unit := do
  let builder ← get
  match builder.scopes, builder.root with
  | .object _ none :: _, _ => refuse (.containerWithoutName call)
  | [], some _ => refuse .secondRoot
  | _, _ => return ()

def place (value : Value) : Write Unit := do
  let builder ← get
  match builder.scopes, builder.root with
  | .object _ none :: _, _ => refuse .valueWithoutName
  | .object members (some name) :: outer, _ =>
      set { builder with scopes := .object (members.insert name value) none :: outer }
  | .array items :: outer, _ =>
      set { builder with scopes := .array (items.push value) :: outer }
  | [], some _ => refuse .secondRoot
  | [], none => set { builder with root := some value }

def openObject : Write Unit := do
  checkRoom "start_object"
  modify fun builder => { builder with scopes := .object [] none :: builder.scopes }

def openArray : Write Unit := do
  checkRoom "start_array"
  modify fun builder => { builder with scopes := .array #[] :: builder.scopes }

def closeObject : Write Unit := do
  let builder ← get
  match builder.scopes with
  | .object members none :: outer =>
      set { builder with scopes := outer }
      place (.object members)
  | .object _ (some name) :: _ => refuse (.nameWithoutValue name)
  | .array _ :: _ => refuse .objectEndInArray
  | [] => refuse .objectEndOutside

def closeArray : Write Unit := do
  let builder ← get
  match builder.scopes with
  | .array items :: outer =>
      set { builder with scopes := outer }
      place (.array items.toList)
  | .object _ _ :: _ => refuse .arrayEndInObject
  | [] => refuse .arrayEndOutside

def field (name : String) : Write Unit := do
  let builder ← get
  match builder.scopes with
  | .object _ (some pending) :: _ => refuse (.nameWithoutValue pending)
  | .object members none :: outer =>
      set { builder with scopes := .object members (some name) :: outer }
  | _ => refuse (.nameOutsideObject name)

def value (value : Value) : Write Unit :=
  place value

def fieldValue (name : String) (v : Value) : Write Unit := do
  field name
  value v

def nullField (name : String) : Write Unit :=
  fieldValue name .null

/-- Writes an array under a name, with each item written by a run of calls of its own. -/
def array (name : String) (items : List (Write Unit)) : Write Unit := do
  field name
  openArray
  items.forM id
  closeArray

/-!
# The document
-/

def finish (builder : Builder) : Except Error Value :=
  match builder.scopes, builder.root with
  | [], some root => .ok root
  | [], none => .error Misuse.nothingWritten.error
  | scopes, _ => .error (Misuse.stillOpen scopes.length).error

def writeTo (builder : Builder) (layout : Layout) (sink : Sink) : Except Error Unit × Sink :=
  match builder.finish with
  | .error e => (.error e, sink)
  | .ok root =>
      let (result, sink) := sink.offer (Utf8.encode (root.text layout))
      (result.mapError fun refusal => .serialization refusal.message, sink)

/-- The text of the document, decoded from what a sink takes of it. -/
def text (builder : Builder) (layout : Layout) : Except Error String := do
  let (result, sink) := builder.writeTo layout (.new none .tookNothing)
  result
  match Utf8.decode? sink.taken.toList with
  | some text => return text
  | none => throw (.serialization (Utf8.complaint sink.taken.toList))

end Builder
end JsonBind
