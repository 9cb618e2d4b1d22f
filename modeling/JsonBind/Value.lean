import JsonBind.Number

/-!
# Documents as trees

A document is a scalar, a list of documents, or a list of named documents. The
members of an object keep the order in which their names first came.
-/

namespace JsonBind

inductive Value where
  | null
  | bool (flag : Bool)
  | number (n : Number)
  | string (text : String)
  | array (items : List Value)
  | object (members : List (String × Value))

instance : Inhabited Value :=
  ⟨.null⟩

abbrev Members : Type :=
  List (String × Value)

namespace Members

/-- Puts a member last, or in the place of the member that has its name already. -/
def insert (name : String) (value : Value) : Members -> Members
  | [] => [(name, value)]
  | (other, old) :: rest =>
      if other = name then (name, value) :: rest
      else (other, old) :: insert name value rest

def ofWrites (writes : List (String × Value)) : Members :=
  writes.foldl (fun members write => insert write.1 write.2 members) []

end Members

namespace Value

def long (n : Int64) : Value :=
  .number (.ofLong n)

/-- The double `x`; what is not finite has no number, and is null. -/
def float (x : Float) : Value :=
  match Number.ofFloat? x with
  | some n => .number n
  | none => .null

def kind : Value -> String
  | .null => "null"
  | .bool _ => "a boolean"
  | .number _ => "a number"
  | .string _ => "a string"
  | .array _ => "an array"
  | .object _ => "an object"

def isObject : Value -> Bool
  | .object _ => true
  | _ => false

end Value
end JsonBind
