import JsonBind.Struct.Slot
import JsonBind.Reader.Source

/-!
# Records with fixed fields

A record type describes itself by its slots, and that gives it a document and
two readers. The readers take an object, whose members name the slots, or an
array, whose items fill the slots in order. Unknown members and second fillings
of a slot are refused; slots that are left out stay as they are in the empty
record.
-/

namespace JsonBind

structure Struct (σ : Type) where
  name : String
  empty : σ
  slots : List (Slot σ)

namespace Struct

variable {σ : Type} (struct : Struct σ)

/-- The document of a record: the members of its slots in order, without those that show nothing. -/
def toTree (record : σ) : Value :=
  .object (struct.slots.filterMap fun slot =>
    (slot.get record).map fun value => (slot.name, value))

def description : String :=
  "struct " ++ struct.name

def spellings : List String :=
  struct.slots.flatMap (·.spellings)

abbrev Index : Type :=
  Fin struct.slots.length

def slot? (key : String) : Option struct.Index :=
  struct.slots.findFinIdx? fun slot => slot.spellings.contains key

def open? (filled : List struct.Index) (key : String) : Except Mismatch struct.Index :=
  match struct.slot? key with
  | none => .error (.unknownField key struct.spellings)
  | some slot =>
      if slot ∈ filled then .error (.duplicateField (struct.slots.get slot).name) else .ok slot

/-!
# From a tree
-/

def ofMembers (filled : List struct.Index) (record : σ) : Members -> Except Mismatch σ
  | [] => .ok record
  | (key, value) :: rest => do
      let slot ← struct.open? filled key
      let set ← (struct.slots.get slot).ofTree value
      ofMembers (slot :: filled) (set record) rest

/-- Fills slots from items, in slot order. An item too many is found after all else. -/
def ofItems (length : Nat) : List (Slot σ) -> List Value -> σ -> Except Mismatch σ
  | _, [], record => .ok record
  | [], _ :: _, _ => .error (.tooManyItems length)
  | slot :: slots, item :: items, record => do
      let set ← slot.ofTree item
      ofItems length slots items (set record)

def ofTree : Value -> Except Mismatch σ
  | .object members => struct.ofMembers [] struct.empty members
  | .array items => ofItems items.length struct.slots items struct.empty
  | value => .error (.wrongType (.ofValue value) struct.description)

/-!
# From a text
-/

def moreFields (ending : Ending) (levels : Nat) (state : List struct.Index × σ) :
    Reader (Option (List struct.Index × σ)) := do
  let (filled, record) := state
  match ← Reader.nameFollows ending filled.isEmpty with
  | none => return none
  | some key =>
      match struct.open? filled key with
      | .error mismatch => Reader.fault (.unfit mismatch) .unplaced
      | .ok slot =>
          Reader.colon ending
          let set ← (struct.slots.get slot).ofText ending levels
          return some (slot :: filled, set record)

def positional (ending : Ending) (levels : Nat) : Bool -> List (Slot σ) -> σ -> Reader σ
  | _, [], record => return record
  | first, slot :: slots, record => do
      if ← Reader.itemFollows ending first then
        let set ← slot.ofText ending levels
        positional ending levels false slots (set record)
      else return record

/-- A record in which up to `levels` containers are open within each other, itself included. -/
def ahead (ending : Ending) (levels : Nat) : Reader σ := do
  match (← Reader.peekBehindBlanks ending).map Char.ofUInt8, levels with
  | some '[', 0 => Reader.fault .tooDeep .atNext
  | some '{', 0 => Reader.fault .tooDeep .atNext
  | some '[', levels + 1 =>
      Reader.enclosed ending .square
        (positional ending levels true struct.slots struct.empty)
  | some '{', levels + 1 =>
      Reader.enclosed ending .curly do
        return (← Scan.iterate (struct.moreFields ending levels) ([], struct.empty)).2
  | _, _ => Slot.wrongAhead struct.description ending

def read (source : Source) : Except Fault σ :=
  source.read struct.ahead

/-!
# Slots that hold a list of records
-/

def moreRecords (ending : Ending) (levels : Nat) (records : List σ) :
    Reader (Option (List σ)) := do
  if ← Reader.itemFollows ending records.isEmpty then
    return some ((← struct.ahead ending levels) :: records)
  else return none

def listOf : Value -> Except Mismatch (List σ)
  | .array items => items.mapM struct.ofTree
  | value => .error (.wrongType (.ofValue value) "a sequence")

def listAhead (ending : Ending) (levels : Nat) : Reader (List σ) := do
  match (← Reader.peekBehindBlanks ending).map Char.ofUInt8, levels with
  | some '[', 0 => Reader.fault .tooDeep .atNext
  | some '[', levels + 1 =>
      let records ← Reader.enclosed ending .square
        (Scan.iterate (struct.moreRecords ending levels) [])
      return records.reverse
  | _, _ => Slot.wrongAhead "a sequence" ending

end Struct

def Slot.list {σ υ : Type} (struct : Struct υ) (name : String) (spellings : List String)
    (get : σ -> Option (List υ)) (set : List υ -> σ -> σ) : Slot σ where
  name
  spellings
  get record := (get record).map fun records => .array (records.map struct.toTree)
  ofTree value := (struct.listOf value).map set
  ofText ending levels := set <$> struct.listAhead ending levels

end JsonBind
