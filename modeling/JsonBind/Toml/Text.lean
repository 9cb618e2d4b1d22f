import JsonBind.Toml.Number
import JsonBind.Toml.Table

/-!
# Texts of TOML

A text is a run of lines: blank ones and comments, headers, and keys with their
values. Arrays and inline tables may stand within each other up to a fixed
depth; reading descends by that depth.
-/

namespace JsonBind
namespace Toml
namespace Lexer

def arrayItem (value : Lexer Item) (items : List Item) : Lexer (Option (List Item)) := do
  gaps
  if (← Scan.peek) = some ']' then return none
  else
    let item ← value
    gaps
    if !(← takes ',') && (← Scan.peek) ≠ some ']' then reject
    else return some (item :: items)

structure Inline where
  entries : Entries
  more : Bool

def inlineEntry (value : Lexer Item) (inline : Inline) : Lexer (Option Inline) := do
  if !inline.more then return none
  else
    let key ← key
    symbol '='
    blanks
    let item ← value
    blanks
    let more ← takes ','
    match inline.entries.put key.path key.last item with
    | some entries => return some ⟨entries, more⟩
    | none => reject

def numeric : Lexer Item :=
  either (do dateTime
             return .dateTime)
    (either (return .float (← float)) (return .integer (← integer)))

/-- A value whose items and entries are read by `inner`; without it there may be none. -/
def valueWith (inner : Option (Lexer Item)) : Lexer Item := do
  match ← Scan.peek, inner with
  | some '[', some value =>
      let _ ← Scan.next
      let items ← Scan.iterate (arrayItem value) []
      symbol ']'
      return .array items.reverse
  | some '{', some value =>
      let _ ← Scan.next
      blanks
      let isEmpty := (← Scan.peek) = some '}'
      let inline ← Scan.iterate (inlineEntry value) ⟨[], !isEmpty⟩
      symbol '}'
      return .table .inline inline.entries
  | some '"', _ =>
      let _ ← Scan.next
      return .string (← string '"')
  | some '\'', _ =>
      let _ ← Scan.next
      return .string (← string '\'')
  | some 't', _ =>
      symbols ['t', 'r', 'u', 'e']
      return .boolean true
  | some 'f', _ =>
      symbols ['f', 'a', 'l', 's', 'e']
      return .boolean false
  | _, _ => numeric

def value : Nat -> Lexer Item
  | 0 => valueWith none
  | levels + 1 => valueWith (some (value levels))

def maxLevels : Nat :=
  79

def orReject {α : Type} : Option α -> Lexer α
  | some a => return a
  | none => reject

def header (document : Document) : Lexer Document := do
  symbol '['
  if ← takes '[' then
    let key ← key
    symbols [']', ']']
    lineRest
    orReject (document.startElement key.path key.last)
  else
    let key ← key
    symbol ']'
    lineRest
    orReject (document.startTable key.path key.last)

def entry (document : Document) : Lexer Document := do
  let key ← key
  symbol '='
  blanks
  let item ← value maxLevels
  lineRest
  orReject (document.put key.path key.last item)

def line (document : Document) : Lexer (Option Document) := do
  blanks
  match ← Scan.peek with
  | none => return none
  | some '\r' | some '\n' =>
      newline
      return some document
  | some '#' =>
      comment
      lineEnd
      return some document
  | some '[' => return some (← header document)
  | some _ => return some (← entry document)

def byteOrderMark : Char :=
  '\ufeff'

def text : Lexer Entries := do
  let _ ← takes byteOrderMark
  let document ← Scan.iterate line .empty
  orReject document.finish

end Lexer

def read? (text : String) : Option Entries :=
  match Lexer.text text.toList with
  | .ok found => if found.rest.isEmpty then some found.result else none
  | .error () => none

end Toml
end JsonBind
