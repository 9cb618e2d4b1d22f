/-!
# Longs in text

A long is spelled by an optional sign and at least one ASCII digit, with any
number of leading zeros and any blanks around it. It has to fit a signed word of
64 bits.

Blank are the characters with the White_Space property. The controls U+001C to
U+001F and the invisible U+180E, U+200B and U+FEFF do not have it.
-/

namespace JsonBind
namespace Text

def isBlank (c : Char) : Bool :=
  let code := c.toNat
  (0x09 ≤ code ∧ code ≤ 0x0d) ∨ code = 0x20 ∨ code = 0x85 ∨ code = 0xa0 ∨ code = 0x1680 ∨
    (0x2000 ≤ code ∧ code ≤ 0x200a) ∨ code = 0x2028 ∨ code = 0x2029 ∨ code = 0x202f ∨
    code = 0x205f ∨ code = 0x3000

def trim (cs : List Char) : List Char :=
  ((cs.dropWhile isBlank).reverse.dropWhile isBlank).reverse

def digits? (cs : List Char) : Option Nat :=
  if !cs.isEmpty && cs.all Char.isDigit then some (Nat.ofDigitChars 10 cs 0) else none

def signed? : List Char -> Option Int
  | '+' :: cs => (digits? cs).map Int.ofNat
  | '-' :: cs => (digits? cs).map fun n => -Int.ofNat n
  | cs => (digits? cs).map Int.ofNat

def long? (text : String) : Option Int64 :=
  match signed? (trim text.toList) with
  | some n =>
    if -0x8000000000000000 ≤ n ∧ n < 0x8000000000000000 then some (Int64.ofInt n) else none
  | none => none

end Text
end JsonBind
