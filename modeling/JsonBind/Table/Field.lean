import JsonBind.Value.Text

/-!
# Fields

A field has a name, under which it is written, and aliases, under which it is
read as well. What a table does with its value depends on its shape.
-/

namespace JsonBind

structure Field where
  name : String
  aliases : List String
  deriving DecidableEq

namespace Field

def named (name : String) : Field :=
  ⟨name, []⟩

def withAliases (field : Field) (aliases : List String) : Field :=
  { field with aliases }

def spellings (field : Field) : List String :=
  field.name :: field.aliases

def accepts (field : Field) (key : String) : Bool :=
  field.spellings.contains key

end Field

inductive Shape where
  | object
  | objectArray
  | string
  | long
  | boolean
  deriving DecidableEq

namespace Shape

def description : Shape -> String
  | .object => "an object"
  | .objectArray => "an array of objects"
  | .string => "a string"
  | .long => "a long"
  | .boolean => "a boolean"

def accepts : Shape -> Value -> Bool
  | .object, .object _ => true
  | .objectArray, .array _ => true
  | .string, .string _ => true
  | .long, .number _ | .long, .string _ => true
  | .boolean, .bool _ | .boolean, .string _ => true
  | _, _ => false

end Shape
end JsonBind
