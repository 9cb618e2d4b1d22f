import JsonBind.Scan

/-!
# Tokens of TOML

Blanks, line ends, comments, strings and keys. A text is TOML or it is not: a
scan that fails says no more than that.
-/

namespace JsonBind
namespace Toml

abbrev Lexer (α : Type) : Type :=
  Scan Char Unit α

namespace Lexer

variable {α : Type}

def reject : Lexer α :=
  Scan.fail fun _ => ()

/-- Tries `p`, and where it fails, `q` in the same place. -/
def either (p q : Lexer α) : Lexer α :=
  fun input =>
    match p input with
    | .ok found => .ok found
    | .error _ => q input

def symbol (c : Char) : Lexer Unit := do
  match ← Scan.next with
  | some d => if d = c then return () else reject
  | none => reject

def symbols : List Char -> Lexer Unit
  | [] => return ()
  | c :: cs => do
      symbol c
      symbols cs

def takes (c : Char) : Lexer Bool := do
  if (← Scan.peek) = some c then
    let _ ← Scan.next
    return true
  else return false

def some1 (p : Char -> Bool) : Lexer (List Char) := do
  match ← Scan.takeWhile p with
  | [] => reject
  | cs => return cs

/-!
# Between the tokens
-/

def isBlank (c : Char) : Bool :=
  c = ' ' ∨ c = '\t'

def blanks : Lexer Unit := do
  let _ ← Scan.takeWhile isBlank

/-- Printable characters, tabs, and all that is not ASCII. -/
def isPlain (c : Char) : Bool :=
  let code := c.toNat
  code = 0x09 ∨ (0x20 ≤ code ∧ code ≤ 0x7e) ∨ 0x80 ≤ code

def newline : Lexer Unit := do
  let _ ← takes '\r'
  symbol '\n'

def comment : Lexer Unit := do
  if ← takes '#' then
    let _ ← Scan.takeWhile isPlain

def lineEnd : Lexer Unit := do
  match ← Scan.peek with
  | none => return ()
  | some _ => newline

def lineRest : Lexer Unit := do
  blanks
  comment
  lineEnd

def gap (_ : Unit) : Lexer (Option Unit) := do
  match ← Scan.peek with
  | some ' ' | some '\t' => return some (← blanks)
  | some '\r' | some '\n' => return some (← newline)
  | some '#' =>
      comment
      return some (← newline)
  | _ => return none

def gaps : Lexer Unit :=
  Scan.iterate gap ()

/-!
# Strings

Strings are basic or literal, on one line or on many. The characters of a string
are gathered in reverse.
-/

def hexValue (digits : List Char) : Nat :=
  digits.foldl (fun n c =>
    16 * n + (if c.isDigit then c.toNat - '0'.toNat else c.toLower.toNat - 'a'.toNat + 10)) 0

def isHexDigit (c : Char) : Bool :=
  c.isDigit ∨ ('a' ≤ c ∧ c ≤ 'f') ∨ ('A' ≤ c ∧ c ≤ 'F')

def coded (count : Nat) : Lexer Char := do
  let digits ← (List.replicate count ()).mapM fun _ => do
    match ← Scan.next with
    | some c => if isHexDigit c then return c else reject
    | none => reject
  let code := hexValue digits
  if code.isValidChar then return Char.ofNat code else reject

def escaped : Lexer Char := do
  match ← Scan.next with
  | some 'b' => return '\x08'
  | some 'f' => return '\x0c'
  | some 'n' => return '\n'
  | some 'r' => return '\r'
  | some 't' => return '\t'
  | some '"' => return '"'
  | some '\\' => return '\\'
  | some 'u' => coded 4
  | some 'U' => coded 8
  | _ => reject

def basicPiece (text : List Char) : Lexer (Option (List Char)) := do
  match ← Scan.next with
  | none => reject
  | some '"' => return none
  | some '\\' => return some ((← escaped) :: text)
  | some c => if isPlain c then return some (c :: text) else reject

def basicString : Lexer String :=
  return String.ofList (← Scan.iterate basicPiece []).reverse

def literalPiece (text : List Char) : Lexer (Option (List Char)) := do
  match ← Scan.next with
  | none => reject
  | some '\'' => return none
  | some c => if isPlain c then return some (c :: text) else reject

def literalString : Lexer String :=
  return String.ofList (← Scan.iterate literalPiece []).reverse

structure Lines where
  text : List Char
  closed : Bool

/-- Takes a run of quotes, of which the first is taken. Up to two are text; three close the
string, with up to two more of text before them. -/
def quoteRun (quote : Char) (text : List Char) : Lexer Lines := do
  let more ← Scan.takeWhile (· = quote)
  let count := more.length + 1
  if count < 3 then return ⟨List.replicate count quote ++ text, false⟩
  else if count < 6 then return ⟨List.replicate (count - 3) quote ++ text, true⟩
  else reject

def foldedLine : Lexer Unit := do
  blanks
  newline
  let _ ← Scan.iterate (fun (_ : Unit) => do
    match ← Scan.peek with
    | some ' ' | some '\t' => return some (← blanks)
    | some '\r' | some '\n' => return some (← newline)
    | _ => return none) ()

def linesPiece (quote : Char) (escapes : Bool) (lines : Lines) : Lexer (Option Lines) := do
  if lines.closed then return none
  else
    match ← Scan.next with
    | none => reject
    | some '\r' =>
        symbol '\n'
        return some { lines with text := '\n' :: lines.text }
    | some '\n' => return some { lines with text := '\n' :: lines.text }
    | some c =>
        if c = quote then return some (← quoteRun quote lines.text)
        else if c = '\\' ∧ escapes then
          match ← Scan.peek with
          | some ' ' | some '\t' | some '\r' | some '\n' =>
              foldedLine
              return some lines
          | _ => return some { lines with text := (← escaped) :: lines.text }
        else if isPlain c then return some { lines with text := c :: lines.text }
        else reject

def optionalNewline : Lexer Unit := do
  match ← Scan.peek with
  | some '\r' | some '\n' => newline
  | _ => return ()

/-- A string on many lines behind its three opening quotes. A line end right there is no text. -/
def lines (quote : Char) (escapes : Bool) : Lexer String := do
  optionalNewline
  let lines ← Scan.iterate (linesPiece quote escapes) ⟨[], false⟩
  return String.ofList lines.text.reverse

def string (quote : Char) : Lexer String := do
  let escapes := quote = '"'
  either
    (do symbol quote
        symbol quote
        lines quote escapes)
    (if escapes then basicString else literalString)

/-!
# Keys
-/

def isBare (c : Char) : Bool :=
  c.isAlphanum ∨ c = '_' ∨ c = '-'

def simpleKey : Lexer String := do
  match ← Scan.peek with
  | some '"' =>
      let _ ← Scan.next
      basicString
  | some '\'' =>
      let _ ← Scan.next
      literalString
  | _ => return String.ofList (← some1 isBare)

structure Key where
  path : List String
  last : String

def keyPart (key : Key) : Lexer (Option Key) := do
  blanks
  if ← takes '.' then
    blanks
    return some ⟨key.path ++ [key.last], ← simpleKey⟩
  else return none

def keyLimit : Nat :=
  80

def key : Lexer Key := do
  blanks
  let key ← Scan.iterate keyPart ⟨[], ← simpleKey⟩
  blanks
  if key.path.length + 1 < keyLimit then return key else reject

end Lexer
end Toml
end JsonBind
