import JsonBind.Reader.Text

/-!
# Reading containers

An array is items between square brackets, an object is members between braces;
commas stand between them, and only there. These are the steps from one item or
member to the next, and the step that closes a container again.
-/

namespace JsonBind
namespace Reader

inductive Bracket where
  | square
  | curly
  deriving DecidableEq

variable {α : Type} (ending : Ending)

def itemFollows (first : Bool) : Reader Bool := do
  match (← peekBehindBlanks ending).map Char.ofUInt8 with
  | none => fault .endInArray .atNext
  | some ']' => return false
  | some ',' =>
      if first then return true
      else
        let _ ← next ending
        match (← peekBehindBlanks ending).map Char.ofUInt8 with
        | none => fault .endInValue .atNext
        | some ']' => fault .trailingComma .atNext
        | some _ => return true
  | some _ => if first then return true else fault .noCommaInArray .atNext

def name : Reader (Option String) := do
  let _ ← next ending
  return some (← string ending)

def nameFollows (first : Bool) : Reader (Option String) := do
  match (← peekBehindBlanks ending).map Char.ofUInt8 with
  | none => fault .endInObject .atNext
  | some '}' => return none
  | some ',' =>
      if first then fault .keyNotString .atNext
      else
        let _ ← next ending
        match (← peekBehindBlanks ending).map Char.ofUInt8 with
        | none => fault .endInValue .atNext
        | some '}' => fault .trailingComma .atNext
        | some '"' => name ending
        | some _ => fault .keyNotString .atNext
  | some '"' => if first then name ending else fault .noCommaInObject .atNext
  | some _ =>
      if first then fault .keyNotString .atNext else fault .noCommaInObject .atNext

def colon : Reader Unit := do
  match (← peekBehindBlanks ending).map Char.ofUInt8 with
  | none => fault .endInObject .atNext
  | some ':' => do
      let _ ← next ending
  | some _ => fault .noColon .atNext

/-- Takes the bracket that closes a container. Behind a comma that should not be there, it makes no
difference whether the source ends or breaks off. -/
def close : Bracket -> Reader Unit
  | .square => do
      match (← peekBehindBlanks ending).map Char.ofUInt8 with
      | none => fault .endInArray .atNext
      | some ']' => do
          let _ ← next ending
      | some ',' =>
          let _ ← next ending
          let _ ← Scan.takeWhile isBlank
          match (← Scan.peek).map Char.ofUInt8 with
          | some ']' => fault .trailingComma .atNext
          | _ => fault .trailingCharacters .atNext
      | some _ => fault .trailingCharacters .atNext
  | .curly => do
      match (← peekBehindBlanks ending).map Char.ofUInt8 with
      | none => fault .endInObject .atNext
      | some '}' => do
          let _ ← next ending
      | some ',' => fault .trailingComma .atNext
      | some _ => fault .trailingCharacters .atNext

/-- Gives a fault that has no place yet the place where its container ends: behind the closing
bracket, if that is what comes next. -/
def placed (bracket : Bracket) (found : Fault) : Fault :=
  match found.mark with
  | .unplaced =>
      match close ending bracket found.left with
      | .ok closed => { found with left := closed.rest, mark := .taken }
      | .error closing => { found with left := closing.left, mark := .looked }
  | _ => found

def enclosed (bracket : Bracket) (inside : Reader α) : Reader α :=
  let whole : Reader α := do
    let _ ← next ending
    let found ← inside
    close ending bracket
    return found
  fun input => (whole input).mapError (placed ending bracket)

end Reader
end JsonBind
