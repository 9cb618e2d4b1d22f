/-!
# Texts of documents

Between quotes, the quote, the backslash and the control characters below U+0020
are escaped, five of those by a letter and the rest by four hexadecimal digits.
All other characters stand for themselves.
-/

namespace JsonBind
namespace Text

def hexDigit (n : Nat) : Char :=
  Nat.digitChar (n % 16)

def escapedChar (c : Char) : List Char :=
  match c with
  | '"' => ['\\', '"']
  | '\\' => ['\\', '\\']
  | '\x08' => ['\\', 'b']
  | '\x09' => ['\\', 't']
  | '\x0a' => ['\\', 'n']
  | '\x0c' => ['\\', 'f']
  | '\x0d' => ['\\', 'r']
  | c =>
      if c.toNat < 0x20 then ['\\', 'u', '0', '0', hexDigit (c.toNat / 16), hexDigit c.toNat]
      else [c]

def escapedAppend (cs : List Char) (rest : List Char) : List Char :=
  match cs with
  | [] => rest
  | c :: cs => escapedChar c ++ escapedAppend cs rest

def stringAppend (text : String) (rest : List Char) : List Char :=
  '"' :: escapedAppend text.toList ('"' :: rest)

/-!
# Compact texts in parts

A compact text can be written without a tree, one part after the other. A part is
written before what comes behind it; commas stand between the parts of a container.
-/

abbrev Part : Type :=
  List Char -> List Char

/-- Parts in order, with a comma between each two of them. -/
def separated : List Part -> Part
  | [], rest => rest
  | [part], rest => part rest
  | part :: next :: parts, rest => part (',' :: separated (next :: parts) rest)

def namedPart (name : String) (value : Part) : Part :=
  fun rest => stringAppend name (':' :: value rest)

def arrayPart (items : List Part) : Part :=
  fun rest => '[' :: separated items (']' :: rest)

def objectPart (fields : List Part) : Part :=
  fun rest => '{' :: separated fields ('}' :: rest)

end Text
end JsonBind
