import JsonBind.Reader.Number
import JsonBind.Reader.Container

/-!
# Reading documents

A text is one value with blanks around it. Containers may be open within each
other up to a fixed number; reading descends by that number, and goes on within
a container by what is left of the text.
-/

namespace JsonBind
namespace Reader

variable (ending : Ending)

def scalar : Reader Value := do
  match (← peek ending).map Char.ofUInt8 with
  | none => fault .endInValue .atNext
  | some 'n' =>
      let _ ← next ending
      word ending ['u', 'l', 'l']
      return .null
  | some 't' =>
      let _ ← next ending
      word ending ['r', 'u', 'e']
      return .bool true
  | some 'f' =>
      let _ ← next ending
      word ending ['a', 'l', 's', 'e']
      return .bool false
  | some '"' =>
      let _ ← next ending
      return .string (← string ending)
  | some '-' =>
      let _ ← next ending
      return .number (← unsigned ending true)
  | some c =>
      if c.isDigit then return .number (← unsigned ending false)
      else fault .noValue .atNext

def moreItems (item : Reader Value) (items : List Value) : Reader (Option (List Value)) := do
  if ← itemFollows ending items.isEmpty then return some ((← item) :: items)
  else return none

def moreMembers (value : Reader Value) (members : Members) : Reader (Option Members) := do
  match ← nameFollows ending members.isEmpty with
  | none => return none
  | some name =>
      colon ending
      return some (members.insert name (← value))

/-- A value, whose items and members are read by `inner`; without it there may be none. -/
def valueWith (inner : Option (Reader Value)) : Reader Value := do
  match (← peekBehindBlanks ending).map Char.ofUInt8, inner with
  | some '[', none => fault .tooDeep .atNext
  | some '{', none => fault .tooDeep .atNext
  | some '[', some item =>
      let items ← enclosed ending .square (Scan.iterate (moreItems ending item) [])
      return .array items.reverse
  | some '{', some value =>
      let members ← enclosed ending .curly (Scan.iterate (moreMembers ending value) [])
      return .object members
  | _, _ => scalar ending

/-- A value in which up to `levels` containers are open within each other. -/
def value : Nat -> Reader Value
  | 0 => valueWith ending none
  | levels + 1 => valueWith ending (some (value levels))

def maxLevels : Nat :=
  127

def document {α : Type} (root : Nat -> Reader α) : Reader α := do
  let found ← root maxLevels
  match ← peekBehindBlanks ending with
  | none => return found
  | some _ => fault .trailingCharacters .atNext

end Reader
end JsonBind
