import JsonBind.Decimal.Shortest

/-!
# Written decimals

Integers are written in full. A double is written with its shortest digits,
either positionally, with at least one digit on each side of the point, or as
`d.ddde±x` with the power of ten of its leading digit. Which of the two is a
matter of the magnitude, and of the place where it is written.
-/

namespace JsonBind
namespace Decimal

def natural (n : Nat) : List Char :=
  Nat.toDigits 10 n

def integer : Int -> List Char
  | .ofNat n => natural n
  | .negSucc n => '-' :: natural (n + 1)

inductive Positional where
  | between (least greatest : Int)
  | always

def Positional.holds : Positional -> Int -> Bool
  | .between least greatest, power => decide (least ≤ power ∧ power ≤ greatest)
  | .always, _ => true

/-- Documents write magnitudes from 10^-5 up to below 10^16 positionally. -/
def inDocuments : Positional :=
  .between (-5) 15

def inSettings : Positional :=
  .always

def withPoint (digits : List Char) (whole : Int) : List Char :=
  if whole ≤ 0 then
    '0' :: '.' :: List.replicate (-whole).toNat '0' ++ digits
  else if digits.length ≤ whole.toNat then
    digits ++ List.replicate (whole.toNat - digits.length) '0' ++ ['.', '0']
  else
    digits.take whole.toNat ++ '.' :: digits.drop whole.toNat

/-- Digits with the point after the first, then the power of ten with its sign. -/
def withPower (digits : List Char) (power : Int) : List Char :=
  let sign := if power < 0 then '-' else '+'
  let scale := 'e' :: sign :: natural power.natAbs
  match digits with
  | [] => scale
  | [digit] => digit :: scale
  | digit :: rest => digit :: '.' :: rest ++ scale

def magnitude (positional : Positional) (b : Binary) : List Char :=
  let shortest := b.shortest
  let digits := natural shortest.digits
  let power := shortest.exponent + digits.length - 1
  if positional.holds power then withPoint digits (power + 1)
  else withPower digits power

def double (positional : Positional) (x : Float) : List Char :=
  if x.isNaN then ['N', 'a', 'N']
  else
    let b := Binary.ofFloat x
    let text :=
      if x.isInf then ['i', 'n', 'f']
      else if b.significand = 0 then ['0', '.', '0']
      else magnitude positional b
    if b.negative then '-' :: text else text

end Decimal
end JsonBind
