/-!
# Errors

What can go wrong is sorted into six kinds. Whoever raises an error chooses its
kind and words it: callers bind their own types, and raise errors of their own.
-/

namespace JsonBind

inductive Error where
  | parse (reason : String)
  | unknownField (table key : String)
  | serialization (reason : String)
  | io (reason : String)
  | invalidOperation (reason : String)
  | config (reason : String)
  deriving DecidableEq

namespace Error

def message : Error -> String
  | .parse reason => "Parse error: " ++ reason
  | .unknownField table key => "[" ++ table ++ "] unknown field [" ++ key ++ "]"
  | .serialization reason => "Serialization error: " ++ reason
  | .io reason => "I/O error: " ++ reason
  | .invalidOperation reason => "Invalid operation: " ++ reason
  | .config reason => "Configuration error: " ++ reason

def inField (table field reason : String) : Error :=
  .parse ("[" ++ table ++ "] failed to parse field [" ++ field ++ "]: " ++ reason)

def isReading : Error -> Bool
  | .parse _ | .unknownField _ _ | .io _ => true
  | _ => false

def isWriting : Error -> Bool
  | .serialization _ | .invalidOperation _ => true
  | _ => false

end Error
end JsonBind
