import JsonBind.Value.Text
import JsonBind.Text.Quoted

/-!
# Mismatches

A record with fixed fields is read from a document that may hold anything. What
does not fit is described by the form in which it was met, next to what would
have fitted.
-/

namespace JsonBind

inductive Met where
  | null
  | boolean (flag : Bool)
  | integer (n : Int)
  | double (positional : Decimal.Positional) (x : Float)
  | string (text : String)
  | sequence
  | map

namespace Met

def description : Met -> String
  | .null => "null"
  | .boolean true => "boolean `true`"
  | .boolean false => "boolean `false`"
  | .integer n => "integer `" ++ String.ofList (Decimal.integer n) ++ "`"
  | .double positional x =>
      "floating point `" ++ String.ofList (Decimal.double positional x) ++ "`"
  | .string text => "string " ++ Text.quoted text
  | .sequence => "sequence"
  | .map => "map"

def ofValue : Value -> Met
  | .null => .null
  | .bool flag => .boolean flag
  | .number (.int n _) => .integer n
  | .number (.float x _) => .double Decimal.inDocuments x
  | .string text => .string text
  | .array _ => .sequence
  | .object _ => .map

end Met

inductive Mismatch where
  | unknownField (key : String) (fields : List String)
  | duplicateField (field : String)
  | wrongType (met : Met) (expected : String)
  | wrongValue (met : Met) (expected : String)
  | tooManyItems (length : Nat)
  | notLong (text : String)
  | noVariant (union : String)

namespace Mismatch

def quotedName (name : String) : String :=
  "`" ++ name ++ "`"

def oneOf : List String -> String
  | [] => "nothing"
  | [name] => quotedName name
  | [first, second] => quotedName first ++ " or " ++ quotedName second
  | names => "one of " ++ ", ".intercalate (names.map quotedName)

def message : Mismatch -> String
  | .unknownField key fields =>
      "unknown field " ++ quotedName key ++ ", expected " ++ oneOf fields
  | .duplicateField field => "duplicate field " ++ quotedName field
  | .wrongType met expected =>
      "invalid type: " ++ met.description ++ ", expected " ++ expected
  | .wrongValue met expected =>
      "invalid value: " ++ met.description ++ ", expected " ++ expected
  | .tooManyItems length =>
      "invalid length " ++ String.ofList (Decimal.natural length) ++
        ", expected fewer elements in array"
  | .notLong text => "[" ++ text ++ "] is not a long"
  | .noVariant union => "data did not match any variant of untagged enum " ++ union

end Mismatch
end JsonBind
