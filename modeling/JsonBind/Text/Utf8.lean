import JsonBind.Decimal.Written

/-!
# UTF-8

Text as bytes, and bytes as text. Bytes that are no text still have a longest
beginning that is. Behind it they may end within a character; else the bytes that
could have started one are wrong together.
-/

namespace JsonBind
namespace Utf8

def encode (text : String) : List UInt8 :=
  text.toByteArray.data.toList

def decode? (bytes : List UInt8) : Option String :=
  String.fromUTF8? bytes.toByteArray

/-- Where the characters that start at `start` stop decoding, at most `count` of them. -/
def validFrom (bytes : ByteArray) (start : Nat) : Nat -> Nat
  | 0 => start
  | count + 1 =>
      match bytes.utf8DecodeChar? start with
      | some c => validFrom bytes (start + c.utf8Size) count
      | none => start

def validLength (bytes : List UInt8) : Nat :=
  validFrom bytes.toByteArray 0 bytes.length

/-- How many bytes go on with a character behind its first one, with the least and the greatest that
the next one may be; none if no character starts so. -/
def behindFirst? (first : UInt8) : Option (Nat × UInt8 × UInt8) :=
  if 0xc2 ≤ first ∧ first ≤ 0xdf then some (1, 0x80, 0xbf)
  else if first = 0xe0 then some (2, 0xa0, 0xbf)
  else if first = 0xed then some (2, 0x80, 0x9f)
  else if 0xe1 ≤ first ∧ first ≤ 0xef then some (2, 0x80, 0xbf)
  else if first = 0xf0 then some (3, 0x90, 0xbf)
  else if 0xf1 ≤ first ∧ first ≤ 0xf3 then some (3, 0x80, 0xbf)
  else if first = 0xf4 then some (3, 0x80, 0x8f)
  else none

/-- How many bytes are wrong together where no character starts; none if they could still have
become a character. -/
def wrongTogether? : List UInt8 -> Option Nat
  | [] => none
  | first :: bytes =>
      match behindFirst? first, bytes with
      | none, _ => some 1
      | some _, [] => none
      | some (more, least, greatest), second :: bytes =>
          if least ≤ second ∧ second ≤ greatest then
            let fitting :=
              (bytes.take (more - 1)).takeWhile fun byte => 0x80 ≤ byte && byte ≤ 0xbf
            if fitting.length = bytes.length then none else some (fitting.length + 2)
          else some 1

def complaint (bytes : List UInt8) : String :=
  let index := validLength bytes
  let place := String.ofList (Decimal.natural index)
  match wrongTogether? (bytes.drop index) with
  | some length =>
      "invalid utf-8 sequence of " ++ String.ofList (Decimal.natural length) ++
        " bytes from index " ++ place
  | none => "incomplete utf-8 byte sequence from index " ++ place

end Utf8
end JsonBind
