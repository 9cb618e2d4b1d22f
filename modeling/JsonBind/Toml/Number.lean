import JsonBind.Toml.Lexer
import JsonBind.Decimal.Binary

/-!
# Numbers and times of TOML

Integers are decimal with an optional sign, or hexadecimal, octal or binary
without one, and fit a signed word of 64 bits. Underscores may stand between
two digits. Doubles round to nearest. Of dates and times only the form and the
ranges of their parts are checked.
-/

namespace JsonBind
namespace Toml
namespace Lexer

/-!
# Digits
-/

def digit (isDigit : Char -> Bool) : Lexer Char := do
  match ← Scan.next with
  | some c => if isDigit c then return c else reject
  | none => reject

def moreDigits (isDigit : Char -> Bool) (digits : List Char) : Lexer (Option (List Char)) := do
  match ← Scan.peek with
  | some '_' =>
      let _ ← Scan.next
      return some ((← digit isDigit) :: digits)
  | some c =>
      if isDigit c then
        let _ ← Scan.next
        return some (c :: digits)
      else return none
  | none => return none

def digits (isDigit : Char -> Bool) : Lexer (List Char) := do
  let first ← digit isDigit
  return (← Scan.iterate (moreDigits isDigit) [first]).reverse

def sign : Lexer Bool := do
  match ← Scan.peek with
  | some '-' => takes '-'
  | some '+' => return !(← takes '+')
  | _ => return false

/-- The digits of a decimal integer: no zero stands before another digit. -/
def decimalDigits : Lexer (List Char) := do
  match ← Scan.peek with
  | some '0' => return [← digit Char.isDigit]
  | _ => digits Char.isDigit

def valueOf (base : Nat) (digits : List Char) : Nat :=
  digits.foldl (fun n c => base * n + hexValue [c]) 0

/-!
# Integers
-/

def fitting (n : Int) : Lexer Int :=
  if -0x8000000000000000 ≤ n ∧ n < 0x8000000000000000 then return n else reject

def decimalInteger : Lexer Int := do
  let negative ← sign
  let n := Int.ofNat (valueOf 10 (← decimalDigits))
  fitting (if negative then -n else n)

def basedInteger (base : Nat) (isDigit : Char -> Bool) : Lexer Int := do
  fitting (valueOf base (← digits isDigit))

def prefixedInteger : Lexer Int := do
  symbol '0'
  match ← Scan.next with
  | some 'x' => basedInteger 16 isHexDigit
  | some 'o' => basedInteger 8 fun c => '0' ≤ c ∧ c ≤ '7'
  | some 'b' => basedInteger 2 fun c => c = '0' ∨ c = '1'
  | _ => reject

def integer : Lexer Int :=
  either prefixedInteger decimalInteger

/-!
# Doubles
-/

def fraction : Lexer (List Char) := do
  if ← takes '.' then digits Char.isDigit else return []

def exponent : Lexer Int := do
  let negative ← sign
  let n := Int.ofNat (valueOf 10 (← digits Char.isDigit))
  return if negative then -n else n

/-- A decimal with a point, an exponent, or both. Above all doubles there is nothing; below all
there is minus infinity. -/
def decimal : Lexer Float := do
  let negative ← sign
  let whole ← decimalDigits
  let part ← fraction
  let e ← takes 'e'
  let exponential := e || (← takes 'E')
  let power ← if exponential then exponent else pure 0
  if part.isEmpty && !exponential then reject
  else
    let x := Decimal.nearest (valueOf 10 (whole ++ part)) (power - part.length)
    if negative then return -x
    else if x.isInf then reject
    else return x

def special : Lexer Float := do
  let negative ← sign
  let infinite : Lexer Float := do
    symbols ['i', 'n', 'f']
    return 1.0 / 0.0
  let undefined : Lexer Float := do
    symbols ['n', 'a', 'n']
    return 0.0 / 0.0
  let x ← either infinite undefined
  return if negative then -x else x

def float : Lexer Float :=
  either decimal special

/-!
# Dates and times
-/

def numberOf (count least greatest : Nat) : Lexer Nat := do
  let cs ← (List.replicate count ()).mapM fun _ => digit Char.isDigit
  let n := valueOf 10 cs
  if least ≤ n ∧ n ≤ greatest then return n else reject

def isLeap (year : Nat) : Bool :=
  year % 4 = 0 ∧ (year % 100 ≠ 0 ∨ year % 400 = 0)

def daysIn (year month : Nat) : Nat :=
  if month = 2 then (if isLeap year then 29 else 28)
  else if month = 4 ∨ month = 6 ∨ month = 9 ∨ month = 11 then 30
  else 31

def date : Lexer Unit := do
  let year ← numberOf 4 0 9999
  symbol '-'
  let month ← numberOf 2 1 12
  symbol '-'
  let _ ← numberOf 2 1 (daysIn year month)

def time : Lexer Unit := do
  let _ ← numberOf 2 0 23
  symbol ':'
  let _ ← numberOf 2 0 59
  symbol ':'
  let _ ← numberOf 2 0 60
  if ← takes '.' then
    let _ ← some1 Char.isDigit

def offset : Lexer Unit := do
  match ← Scan.peek with
  | some 'Z' | some 'z' => let _ ← Scan.next
  | some '+' | some '-' =>
      let _ ← Scan.next
      let _ ← numberOf 2 0 23
      symbol ':'
      let _ ← numberOf 2 0 59
  | _ => return ()

def timeOfDay : Lexer Unit := do
  match ← Scan.next with
  | some 'T' | some 't' | some ' ' =>
      time
      offset
  | _ => reject

def dateTime : Lexer Unit :=
  let dated : Lexer Unit := do
    date
    either timeOfDay (return ())
  either dated time

end Lexer
end Toml
end JsonBind
