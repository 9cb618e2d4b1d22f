import JsonBind.Scan
import JsonBind.Mismatch

/-!
# Faults of a text

A fault is a cause and a place. The place is kept as the bytes that were left
when the fault was found, with a mark that says how the byte next to them
counts; how lines and columns follow from that depends on where the bytes came
from.
-/

namespace JsonBind

inductive Ending where
  | clean
  | broken (reason : String)

inductive Cause where
  | endInValue
  | endInArray
  | endInObject
  | endInString
  | unknownWord
  | noValue
  | noCommaInArray
  | noCommaInObject
  | noColon
  | keyNotString
  | trailingComma
  | trailingCharacters
  | tooDeep
  | controlCharacter
  | badEscape
  | loneSurrogate
  | halfSurrogate
  -- The string has `invalid` bytes behind its longest beginning that is text.
  | notText (invalid : Nat)
  | badNumber
  | numberOutOfRange
  | unfit (mismatch : Mismatch)
  | io (reason : String)

namespace Cause

def message : Cause -> String
  | .endInValue => "EOF while parsing a value"
  | .endInArray => "EOF while parsing a list"
  | .endInObject => "EOF while parsing an object"
  | .endInString => "EOF while parsing a string"
  | .unknownWord => "expected ident"
  | .noValue => "expected value"
  | .noCommaInArray => "expected `,` or `]`"
  | .noCommaInObject => "expected `,` or `\x7d`"
  | .noColon => "expected `:`"
  | .keyNotString => "key must be a string"
  | .trailingComma => "trailing comma"
  | .trailingCharacters => "trailing characters"
  | .tooDeep => "recursion limit exceeded"
  | .controlCharacter => "control character (\\u0000-\\u001F) found while parsing a string"
  | .badEscape => "invalid escape"
  | .loneSurrogate => "lone leading surrogate in hex escape"
  | .halfSurrogate => "unexpected end of hex escape"
  | .notText _ => "invalid unicode code point"
  | .badNumber => "invalid number"
  | .numberOutOfRange => "number out of range"
  | .unfit mismatch => mismatch.message
  | .io reason => reason

def isIo : Cause -> Bool
  | .io _ => true
  | _ => false

/-- How many columns before the place of the fault its cause lies. -/
def setback : Cause -> Nat
  | .notText invalid => invalid
  | _ => 0

end Cause

inductive Mark where
  -- Behind the last byte taken; the next one has not been looked at.
  | taken
  -- Behind the last byte taken; the next one, if any, has been looked at.
  | looked
  -- At the next byte.
  | atNext
  -- Where the innermost open container ends; nowhere if none is open.
  | unplaced
  deriving DecidableEq

structure Fault where
  cause : Cause
  left : List UInt8
  mark : Mark

abbrev Reader (α : Type) : Type :=
  Scan UInt8 Fault α

namespace Reader

variable {α : Type}

def fault (cause : Cause) (mark : Mark) : Reader α :=
  Scan.fail fun left => ⟨cause, left, mark⟩

variable (ending : Ending)

/-- Looks at the next byte. A source that breaks off is found out here. -/
def peek : Reader (Option UInt8) := do
  match ← Scan.peek, ending with
  | none, .broken reason => fault (.io reason) .unplaced
  | next, _ => return next

def next : Reader (Option UInt8) := do
  match ← Scan.next, ending with
  | none, .broken reason => fault (.io reason) .unplaced
  | next, _ => return next

def isBlank (byte : UInt8) : Bool :=
  match Char.ofUInt8 byte with
  | ' ' | '\t' | '\n' | '\r' => true
  | _ => false

def peekBehindBlanks : Reader (Option UInt8) := do
  let _ ← Scan.takeWhile isBlank
  peek ending

/-- Takes the letters of a word, of which the first has been told already. -/
def word : List Char -> Reader Unit
  | [] => return ()
  | letter :: letters => do
      match ← next ending with
      | none => fault .endInValue .taken
      | some byte =>
          if Char.ofUInt8 byte = letter then word letters else fault .unknownWord .taken

end Reader
end JsonBind
