import JsonBind.Reader.Tree
import JsonBind.Text.Long

/-!
# Slots of a record

A record type with fixed fields is a list of slots. A slot has a name, the
spellings under which it is found, the value that a record shows in it, and two
ways to fill it: from a tree, and straight from a text. The builders below make
slots for longs, strings and words.
-/

namespace JsonBind

structure Slot (σ : Type) where
  name : String
  spellings : List String
  get : σ -> Option Value
  ofTree : Value -> Except Mismatch (σ -> σ)
  ofText : Ending -> Nat -> Reader (σ -> σ)

namespace Slot

variable {σ α : Type}

/-!
# What fits

Longs are read from anything first, and told apart by what they turn out to be;
so their mismatches are found behind the value. Other mismatches are found at
the value, as soon as its first byte tells.
-/

def longUnion : String :=
  "LongOrString"

def longOf : Value -> Except Mismatch Int64
  | .number n =>
      match n.long? with
      | some long => .ok long
      | none => .error (.noVariant longUnion)
  | .string text =>
      match Text.long? text with
      | some long => .ok long
      | none => .error (.notLong text)
  | _ => .error (.noVariant longUnion)

def stringOf : Value -> Except Mismatch String
  | .string text => .ok text
  | value => .error (.wrongType (.ofValue value) "a string")

def wordOf : Value -> Except Mismatch UInt64
  | .number (.int n bounds) =>
      if 0 ≤ n then .ok (UInt64.ofNat n.toNat)
      else .error (.wrongValue (.ofValue (.number (.int n bounds))) "usize")
  | value => .error (.wrongType (.ofValue value) "usize")

/-- Faults on the value ahead, which is of a wrong type. A scalar is taken first, and has to be
well formed; a container is not entered. -/
def wrongAhead (expected : String) (ending : Ending) : Reader α := do
  match (← Reader.peekBehindBlanks ending).map Char.ofUInt8 with
  | none => Reader.fault .endInValue .atNext
  | some '[' => Reader.fault (.unfit (.wrongType .sequence expected)) .looked
  | some '{' => Reader.fault (.unfit (.wrongType .map expected)) .looked
  | some _ =>
      let value ← Reader.scalar ending
      let mismatch := Mismatch.wrongType (.ofValue value) expected
      match value with
      | .number _ => Reader.fault (.unfit mismatch) .looked
      | _ => Reader.fault (.unfit mismatch) .taken

def longAhead (ending : Ending) (levels : Nat) : Reader Int64 := do
  match longOf (← Reader.value ending levels) with
  | .ok long => return long
  | .error mismatch => Reader.fault (.unfit mismatch) .unplaced

def stringAhead (ending : Ending) : Reader String := do
  match (← Reader.peekBehindBlanks ending).map Char.ofUInt8 with
  | some '"' =>
      let _ ← Reader.next ending
      Reader.string ending
  | _ => wrongAhead "a string" ending

def wordAhead (ending : Ending) : Reader UInt64 := do
  match (← Reader.peekBehindBlanks ending).map Char.ofUInt8 with
  | some '[' | some '{' | none => wrongAhead "usize" ending
  | some _ =>
      let value ← Reader.scalar ending
      match wordOf value, value with
      | .ok word, _ => return word
      | .error mismatch, .number _ => Reader.fault (.unfit mismatch) .looked
      | .error mismatch, _ => Reader.fault (.unfit mismatch) .taken

/-!
# Slot builders
-/

def long (name : String) (spellings : List String) (get : σ -> Option Int64)
    (set : Int64 -> σ -> σ) : Slot σ where
  name
  spellings
  get record := (get record).map Value.long
  ofTree value := (longOf value).map set
  ofText ending levels := set <$> longAhead ending levels

def string (name : String) (spellings : List String) (get : σ -> Option String)
    (set : String -> σ -> σ) : Slot σ where
  name
  spellings
  get record := (get record).map Value.string
  ofTree value := (stringOf value).map set
  ofText ending _ := set <$> stringAhead ending

def word (name : String) (spellings : List String) (get : σ -> UInt64)
    (set : UInt64 -> σ -> σ) : Slot σ where
  name
  spellings
  get record := some (.number (.ofWord (get record)))
  ofTree value := (wordOf value).map set
  ofText ending _ := set <$> wordAhead ending

end Slot
end JsonBind
