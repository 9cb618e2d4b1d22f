import JsonBind.Struct
import JsonBind.Error
import JsonBind.Toml.Text

/-!
# Settings

What is accepted can be limited: documents may nest up to a depth, in which the
root counts as one. The depth can be set in a TOML text; it has to be positive.
-/

namespace JsonBind

structure Settings where
  maxDepth : UInt64
  deriving DecidableEq

namespace Settings

/-- Documents nest up to a depth of 64 unless it is set otherwise. -/
def default : Settings :=
  ⟨64⟩

instance : Inhabited Settings :=
  ⟨default⟩

def depthName : String :=
  "max_nesting_depth"

def struct : Struct Settings where
  name := "ParserConfig"
  empty := default
  slots := [Slot.word depthName [depthName] (·.maxDepth) fun maxDepth _ => ⟨maxDepth⟩]

inductive Refusal where
  | notToml
  | unfit (mismatch : Mismatch)
  | zeroDepth

namespace Refusal

def reason : Refusal -> String
  | .notToml => "TOML parse error"
  | .unfit mismatch => mismatch.message
  | .zeroDepth => "max_nesting_depth must be greater than zero"

def error (refusal : Refusal) : Error :=
  .config refusal.reason

end Refusal

def check (settings : Settings) : Except Refusal Unit :=
  if settings.maxDepth = 0 then .error .zeroDepth else .ok ()

/-!
# Settings in TOML
-/

def met : Toml.Item -> Met
  | .string text => .string text
  | .integer n => .integer n
  | .float x => .double Decimal.inSettings x
  | .boolean flag => .boolean flag
  | .array _ | .tables _ => .sequence
  | .table _ _ | .dateTime => .map

def depthOf : Toml.Item -> Except Mismatch UInt64
  | .integer n =>
      if 0 ≤ n then .ok (UInt64.ofNat n.toNat)
      else .error (.wrongValue (.integer n) "usize")
  | item => .error (.wrongType (met item) "usize")

def ofEntries (settings : Settings) : Toml.Entries -> Except Mismatch Settings
  | [] => .ok settings
  | (key, item) :: rest =>
      if key = depthName then do
        let maxDepth ← depthOf item
        ofEntries { settings with maxDepth } rest
      else .error (.unknownField key [depthName])

def ofToml (text : String) : Except Refusal Settings := do
  match Toml.read? text with
  | none => throw .notToml
  | some entries =>
      let settings ← (ofEntries default entries).mapError .unfit
      settings.check
      return settings

end Settings
end JsonBind
