import JsonBind.Reader.Fault

/-!
# Reading numbers

The digits of a number are gathered in a significand of 64 bits and a power of
ten. A number without point and exponent whose digits all fit is an integer.
Any other is a double: the significand as a double, multiplied or divided by a
power of ten as a double, with one rounding in each of these steps.
-/

namespace JsonBind
namespace Reader

def digit? (byte : UInt8) : Option Nat :=
  let c := Char.ofUInt8 byte
  if c.isDigit then some (c.toNat - '0'.toNat) else none

variable (ending : Ending)

def peekDigit : Reader (Option Nat) := do
  return (← peek ending).bind digit?

/-- Takes one more digit, unless the number built up so far would reach `limit`. -/
def digitBelow (limit : Nat) (state : Nat × Nat) : Reader (Option (Nat × Nat)) := do
  match ← peekDigit ending with
  | none => return none
  | some digit =>
      let value := 10 * state.1 + digit
      if value < limit then
        let _ ← next ending
        return some (value, state.2 + 1)
      else return none

def digitsBelow (limit start : Nat) : Reader (Nat × Nat) :=
  Scan.iterate (digitBelow ending limit) (start, 0)

def skipDigits : Reader Nat := do
  let digits ← Scan.takeWhile fun byte => (digit? byte).isSome
  let _ ← peek ending
  return digits.length

/-- What has been read of a number: `± significand · 10 ^ exponent`. -/
structure Numeral where
  negative : Bool
  significand : Nat
  exponent : Int

def significandLimit : Nat :=
  0x10000000000000000

def exponentLimit : Nat :=
  0x80000000

def powerOfTen (n : Nat) : Float :=
  Float.ofScientific 1 false n

/-- `x · 10 ^ exponent`, in steps of at most 308; none if it is too great for a double. -/
def scaled? (x : Float) (exponent : Int) : Option Float :=
  if exponent.natAbs ≤ 308 then
    if 0 ≤ exponent then
      let product := x * powerOfTen exponent.natAbs
      if product.isInf then none else some product
    else some (x / powerOfTen exponent.natAbs)
  else if x == 0 then some x
  else if 0 ≤ exponent then none
  else scaled? (x / powerOfTen 308) (exponent + 308)
termination_by exponent.natAbs
decreasing_by omega

def float (x : Float) : Reader Number :=
  match Number.ofFloat? x with
  | some n => return n
  | none => fault .numberOutOfRange .looked

def double (numeral : Numeral) : Reader Number :=
  match scaled? (UInt64.ofNat numeral.significand).toFloat numeral.exponent with
  | none => fault .numberOutOfRange .looked
  | some x => float (if numeral.negative then -x else x)

/-- The integer that a numeral without exponent stands for. A negative zero, and what no word of
64 bits can hold, is a double. -/
def whole (numeral : Numeral) : Reader Number :=
  let x := (UInt64.ofNat numeral.significand).toFloat
  if numeral.negative then
    if numeral.significand = 0 then float (-x)
    else
      match Number.ofInt? (-Int.ofNat numeral.significand) with
      | some n => return n
      | none => float (-x)
  else
    match Number.ofInt? (Int.ofNat numeral.significand) with
    | some n => return n
    | none => float x

def exponentSign : Reader Bool := do
  match (← peek ending).map Char.ofUInt8 with
  | some '+' =>
      let _ ← next ending
      return false
  | some '-' =>
      let _ ← next ending
      return true
  | _ => return false

def exponentPart (numeral : Numeral) : Reader Number := do
  let below ← exponentSign ending
  match ← next ending with
  | none => fault .endInValue .taken
  | some byte =>
      match digit? byte with
      | none => fault .badNumber .taken
      | some digit =>
          let (exponent, _) ← digitsBelow ending exponentLimit digit
          match ← peekDigit ending with
          | none =>
              let exponent : Int := if below then -exponent else exponent
              double { numeral with exponent := numeral.exponent + exponent }
          | some _ =>
              let _ ← next ending
              if numeral.significand ≠ 0 ∧ below = false then
                fault .numberOutOfRange .taken
              else
                let _ ← skipDigits ending
                float (if numeral.negative then -0.0 else 0.0)

def afterFraction (numeral : Numeral) : Reader Number := do
  match (← peek ending).map Char.ofUInt8 with
  | some 'e' | some 'E' =>
      let _ ← next ending
      exponentPart ending numeral
  | _ => double numeral

def fraction (numeral : Numeral) : Reader Number := do
  let (significand, taken) ← digitsBelow ending significandLimit numeral.significand
  let skipped ← skipDigits ending
  if taken = 0 ∧ skipped = 0 then
    match ← peek ending with
    | none => fault .endInValue .atNext
    | some _ => fault .badNumber .atNext
  else
    afterFraction ending ⟨numeral.negative, significand, numeral.exponent - taken⟩

/-- The part behind the integer digits, of which `skipped` did not fit. -/
def afterInteger (numeral : Numeral) (skipped : Nat) : Reader Number := do
  let numeral := { numeral with exponent := skipped }
  match (← peek ending).map Char.ofUInt8 with
  | some '.' =>
      let _ ← next ending
      fraction ending numeral
  | some 'e' | some 'E' => afterFraction ending numeral
  | _ => if skipped = 0 then whole numeral else double numeral

def unsigned (negative : Bool) : Reader Number := do
  match ← next ending with
  | none => fault .endInValue .taken
  | some byte =>
      match digit? byte with
      | none => fault .badNumber .taken
      | some 0 =>
          if (← peekDigit ending).isSome then fault .badNumber .atNext
          else afterInteger ending ⟨negative, 0, 0⟩ 0
      | some digit =>
          let (significand, _) ← digitsBelow ending significandLimit digit
          let skipped ← skipDigits ending
          afterInteger ending ⟨negative, significand, 0⟩ skipped

end Reader
end JsonBind
