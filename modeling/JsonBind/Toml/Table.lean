/-!
# Tables of TOML

A table keeps its entries in the order in which they were put. How a table came
about decides what may still be added to it: a table with a header of its own is
finished where its section ends, and an inline table where it closes. Tables
that only came about on the way to others stay open.
-/

namespace JsonBind
namespace Toml

inductive Origin where
  -- By a header that names it.
  | header
  -- On the way to a table that a header names.
  | passed
  -- On the way to the last part of a dotted key.
  | dotted
  -- Between braces.
  | inline
  deriving DecidableEq

inductive Item where
  | string (text : String)
  | integer (n : Int)
  | float (x : Float)
  | boolean (flag : Bool)
  | dateTime
  | array (items : List Item)
  | table (origin : Origin) (entries : List (String × Item))
  -- An array of tables, each under a header of its own.
  | tables (elements : List (List (String × Item)))

abbrev Entries : Type :=
  List (String × Item)

namespace Entries

def find? (entries : Entries) (key : String) : Option Item :=
  List.lookup key entries

def set (entries : Entries) (key : String) (item : Item) : Entries :=
  entries.map fun entry => if entry.1 = key then (key, item) else entry

def erase (entries : Entries) (key : String) : Entries :=
  entries.filter (·.1 ≠ key)

/-- Whether a path may lead through a table: a dotted key leads through no table with a header,
and nothing leads into an inline table. -/
def mayPass (dotted : Bool) : Origin -> Bool
  | .inline => false
  | .header => !dotted
  | .passed | .dotted => true

/-- Changes the table at the end of `path` by `edit`, which is told whether a dotted key made that
table, and gives what `edit` found. Tables missing on the way are made; of an array of tables the
last one is meant. -/
def editAt {α : Type} (dotted : Bool) (edit : Bool -> Entries -> Option (α × Entries)) :
    List String -> Bool -> Entries -> Option (α × Entries)
  | [], byDots, entries => edit byDots entries
  | key :: path, _, entries =>
      match find? entries key with
      | none => do
          let (found, inner) ← editAt dotted edit path dotted []
          return (found, entries ++ [(key, .table (if dotted then .dotted else .passed) inner)])
      | some (.table origin inner) =>
          if mayPass dotted origin then do
            let (found, inner) ← editAt dotted edit path (origin = .dotted) inner
            return (found, set entries key (.table origin inner))
          else none
      | some (.tables elements) => do
          let last ← elements.getLast?
          let (found, last) ← editAt dotted edit path false last
          return (found, set entries key (.tables (elements.dropLast ++ [last])))
      | some _ => none

/-- Puts an item under a key that leads through `path` to `name`. No key is given twice, and a
dotted key adds only to tables that dotted keys made. -/
def put (entries : Entries) (path : List String) (name : String) (item : Item) :
    Option Entries := do
  let ((), entries) ← editAt true (fun byDots table =>
    if byDots = path.isEmpty ∨ (find? table name).isSome then none
    else some ((), table ++ [(name, item)])) path false entries
  return entries

end Entries

/-!
# Sections

A document is a run of sections: the first without a header, the others each
under one. A section is gathered apart and put in its place when it ends.
-/

structure Section where
  path : List String
  name : String
  isElement : Bool
  entries : Entries

structure Document where
  root : Entries
  current : Option Section

namespace Document

def empty : Document :=
  ⟨[], none⟩

def put (document : Document) (path : List String) (name : String) (item : Item) :
    Option Document :=
  match document.current with
  | none => do
      return { document with root := ← document.root.put path name item }
  | some current => do
      let entries ← current.entries.put path name item
      return { document with current := some { current with entries } }

def finish (document : Document) : Option Entries :=
  match document.current with
  | none => some document.root
  | some ⟨path, name, isElement, entries⟩ => do
      let ((), root) ← Entries.editAt false (fun _ table =>
        match isElement, Entries.find? table name with
        | true, none => some ((), table ++ [(name, .tables [entries])])
        | true, some (.tables elements) =>
            some ((), Entries.set table name (.tables (elements ++ [entries])))
        | false, none => some ((), table ++ [(name, .table .header entries)])
        | _, _ => none) path false document.root
      return root

/-- Starts a section for a table. One that was only passed so far keeps what it holds. -/
def startTable (document : Document) (path : List String) (name : String) :
    Option Document := do
  let (entries, root) ← Entries.editAt false (fun _ table =>
    match Entries.find? table name with
    | none => some ([], table)
    | some (.table .passed inner) => some (inner, Entries.erase table name)
    | some _ => none) path false (← document.finish)
  return ⟨root, some ⟨path, name, false, entries⟩⟩

def startElement (document : Document) (path : List String) (name : String) :
    Option Document := do
  let ((), root) ← Entries.editAt false (fun _ table =>
    match Entries.find? table name with
    | none | some (.tables _) => some ((), table)
    | some _ => none) path false (← document.finish)
  return ⟨root, some ⟨path, name, true, []⟩⟩

end Document
end Toml
end JsonBind
