import JsonBind.Settings
import JsonBind.Value.Depth

/-!
# Documents

A document is a tree that passed the settings. The settings are checked before
anything is read, and the depth of the tree once it is there.
-/

namespace JsonBind

structure Document where
  root : Value

namespace Document

def tooDeep (depth : Nat) (settings : Settings) : Error :=
  .parse ("document nesting depth " ++ String.ofList (Decimal.natural depth) ++
    " exceeds the limit of " ++ String.ofList (Decimal.natural settings.maxDepth.toNat))

def ofValue (settings : Settings) (root : Value) : Except Error Document := do
  settings.check.mapError Settings.Refusal.error
  let depth := root.worklistDepth
  if settings.maxDepth.toNat < depth then throw (tooDeep depth settings)
  else return ⟨root⟩

/-- A read that failed is an error of its own; all else is wrong with the text. -/
def readError (source : Source) (found : Fault) : Error :=
  if found.cause.isIo then .io (source.message found) else .parse (source.message found)

def ofSource (settings : Settings) (source : Source) : Except Error Document := do
  settings.check.mapError Settings.Refusal.error
  let root ← source.tree.mapError (readError source)
  ofValue settings root

def ofText (settings : Settings) (text : String) : Except Error Document :=
  ofSource settings (.ofText text)

def ofBytes (settings : Settings) (bytes : List UInt8) : Except Error Document :=
  ofSource settings (.ofBytes bytes)

def ofStream (settings : Settings) (stream : Stream) : Except Error Document :=
  ofSource settings (.ofStream stream)

end Document
end JsonBind
