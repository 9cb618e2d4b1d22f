import JsonBind.Value
import JsonBind.Decimal.Written
import JsonBind.Text.Json

/-!
# The text of a document

A document has one compact text, without any blanks, and one pretty text, with
each item and each member on a line of its own, two spaces deeper than its
container. Empty containers take no lines in either.
-/

namespace JsonBind

inductive Layout where
  | compact
  | pretty
  deriving DecidableEq

namespace Layout

def lineAppend (layout : Layout) (level : Nat) (rest : List Char) : List Char :=
  match layout with
  | .compact => rest
  | .pretty => '\n' :: List.replicate (2 * level) ' ' ++ rest

def colonAppend (layout : Layout) (rest : List Char) : List Char :=
  match layout with
  | .compact => ':' :: rest
  | .pretty => ':' :: ' ' :: rest

end Layout

def Number.textAppend : Number -> List Char -> List Char
  | .int n _, rest => Decimal.integer n ++ rest
  | .float x _, rest => Decimal.double Decimal.inDocuments x ++ rest

namespace Value

mutual

/-- The text of a value at the given level, before `rest`. -/
def textAppend (layout : Layout) (level : Nat) : Value -> List Char -> List Char
  | .null, rest => 'n' :: 'u' :: 'l' :: 'l' :: rest
  | .bool true, rest => 't' :: 'r' :: 'u' :: 'e' :: rest
  | .bool false, rest => 'f' :: 'a' :: 'l' :: 's' :: 'e' :: rest
  | .number n, rest => n.textAppend rest
  | .string text, rest => Text.stringAppend text rest
  | .array [], rest => '[' :: ']' :: rest
  | .array (item :: items), rest =>
      '[' :: layout.lineAppend (level + 1)
        (textAppend layout (level + 1) item
          (itemsAppend layout (level + 1) items
            (layout.lineAppend level (']' :: rest))))
  | .object [], rest => '{' :: '}' :: rest
  | .object ((name, value) :: members), rest =>
      '{' :: layout.lineAppend (level + 1)
        (Text.stringAppend name
          (layout.colonAppend
            (textAppend layout (level + 1) value
              (membersAppend layout (level + 1) members
                (layout.lineAppend level ('}' :: rest))))))

def itemsAppend (layout : Layout) (level : Nat) : List Value -> List Char -> List Char
  | [], rest => rest
  | item :: items, rest =>
      ',' :: layout.lineAppend level
        (textAppend layout level item (itemsAppend layout level items rest))

def membersAppend (layout : Layout) (level : Nat) :
    List (String × Value) -> List Char -> List Char
  | [], rest => rest
  | (name, value) :: members, rest =>
      ',' :: layout.lineAppend level
        (Text.stringAppend name
          (layout.colonAppend
            (textAppend layout level value
              (membersAppend layout level members rest))))

end

def text (layout : Layout) (value : Value) : String :=
  String.ofList (value.textAppend layout 0 [])

def compact (value : Value) : String :=
  value.text .compact

end Value
end JsonBind
