import JsonBind.Builder
import JsonBind.Table

/-!
# Models

A model is a type whose values write themselves into a builder and are read from
a document. The rest follows: their trees, their texts, and reading either.
-/

namespace JsonBind

class Model (α : Type) where
  write : Layout -> α -> Write Unit
  read : Document -> Outcome α

namespace Model

variable {α : Type} [Model α]

def build (layout : Layout) (a : α) : Except Error Builder :=
  match (write layout a).run .empty with
  | .ok _ builder => .ok builder
  | .error e _ => .error e

def toTree (a : α) : Except Error Value := do
  (← build .compact a).finish

def toText (layout : Layout) (a : α) : Except Error String := do
  (← build layout a).text layout

def toSink (layout : Layout) (a : α) (sink : Sink) : Except Error Unit × Sink :=
  match build layout a with
  | .ok builder => builder.writeTo layout sink
  | .error e => (.error e, sink)

def ofText (text : String) : Outcome α := do
  read (← .ofExcept (Document.ofText .default text))

def ofTree (tree : Value) : Outcome α := do
  read (← .ofExcept (Document.ofValue .default tree))

end Model
end JsonBind
