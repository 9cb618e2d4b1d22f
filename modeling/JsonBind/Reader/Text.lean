import JsonBind.Reader.Fault
import JsonBind.Text.Utf8

/-!
# Reading strings

A string ends at the first quote that is not escaped. Its bytes, with the
escapes replaced, have to be text. Characters beyond U+FFFF are escaped as two
surrogates.
-/

namespace JsonBind
namespace Reader

variable (ending : Ending)

def nextInString : Reader UInt8 := do
  match ← next ending with
  | some byte => return byte
  | none => fault .endInString .taken

def hexDigit? (byte : UInt8) : Option Nat :=
  let c := Char.ofUInt8 byte
  if c.isDigit then some (c.toNat - '0'.toNat)
  else if 'a' ≤ c ∧ c ≤ 'f' then some (c.toNat - 'a'.toNat + 10)
  else if 'A' ≤ c ∧ c ≤ 'F' then some (c.toNat - 'A'.toNat + 10)
  else none

def fourHexDigits : Reader Nat := do
  let a ← nextInString ending
  let b ← nextInString ending
  let c ← nextInString ending
  let d ← nextInString ending
  match hexDigit? a, hexDigit? b, hexDigit? c, hexDigit? d with
  | some a, some b, some c, some d => return ((a * 16 + b) * 16 + c) * 16 + d
  | _, _, _, _ => fault .badEscape .taken

def isLowSurrogate (unit : Nat) : Bool :=
  decide (0xdc00 ≤ unit ∧ unit ≤ 0xdfff)

def isHighSurrogate (unit : Nat) : Bool :=
  decide (0xd800 ≤ unit ∧ unit ≤ 0xdbff)

/-- Takes the second half of an escaped pair of surrogates, and gives the code of the pair. -/
def lowSurrogate (high : Nat) : Reader Nat := do
  if Char.ofUInt8 (← nextInString ending) ≠ '\\' then fault .halfSurrogate .taken
  else if Char.ofUInt8 (← nextInString ending) ≠ 'u' then fault .halfSurrogate .taken
  else
    let low ← fourHexDigits ending
    if isLowSurrogate low then
      return 0x10000 + (high - 0xd800) * 0x400 + (low - 0xdc00)
    else fault .loneSurrogate .taken

def escapedCode : Reader Nat := do
  let unit ← fourHexDigits ending
  if isLowSurrogate unit then fault .loneSurrogate .taken
  else if isHighSurrogate unit then lowSurrogate ending unit
  else return unit

def escapedChar : Reader Char := do
  match Char.ofUInt8 (← nextInString ending) with
  | '"' => return '"'
  | '\\' => return '\\'
  | '/' => return '/'
  | 'b' => return '\x08'
  | 'f' => return '\x0c'
  | 'n' => return '\n'
  | 'r' => return '\r'
  | 't' => return '\t'
  | 'u' => return Char.ofNat (← escapedCode ending)
  | _ => fault .badEscape .taken

/-- Takes one more piece of a string onto `bytes`, which are in reverse; nothing at its end. -/
def piece (bytes : List UInt8) : Reader (Option (List UInt8)) := do
  let byte ← nextInString ending
  match Char.ofUInt8 byte with
  | '"' => return none
  | '\\' =>
      let c ← escapedChar ending
      return some ((String.utf8EncodeChar c).reverse ++ bytes)
  | _ =>
      if byte < 0x20 then fault .controlCharacter .taken
      else return some (byte :: bytes)

def string : Reader String := do
  let bytes := (← Scan.iterate (piece ending) []).reverse
  match Utf8.decode? bytes with
  | some text => return text
  | none => fault (.notText (bytes.length - Utf8.validLength bytes)) .taken

end Reader
end JsonBind
