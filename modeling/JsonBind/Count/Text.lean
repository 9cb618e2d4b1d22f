import JsonBind.Count.Response
import JsonBind.Text.Json

/-!
# Compact texts of records and responses

A record and a response also have a compact text of their own, which is written field
by field, with neither a builder nor a tree. Fields that are not set are left out.
-/

namespace JsonBind

open Text (Part)

def Text.longPart (n : Int64) : Part :=
  fun rest => Decimal.integer n.toInt ++ rest

def Text.optionalPart (name : String) (value : Option Part) : List Part :=
  (value.map (Text.namedPart name)).toList

namespace Count
namespace Record

def parts (record : Record) : List Part :=
  Text.optionalPart "epoch" (record.epoch.map Text.longPart) ++
    (Text.optionalPart "timestamp" (record.timestamp.map Text.stringAppend) ++
      Text.optionalPart "count" (record.count.map Text.longPart))

def part (record : Record) : Part :=
  Text.objectPart record.parts

def compactText (record : Record) : String :=
  String.ofList (record.part [])

end Record

namespace Response

def part (response : Response) : Part :=
  Text.objectPart
    (Text.optionalPart "records"
      (response.records.map fun records => Text.arrayPart (records.map Record.part)))

def compactText (response : Response) : String :=
  String.ofList (response.part [])

end Response
end Count
end JsonBind
