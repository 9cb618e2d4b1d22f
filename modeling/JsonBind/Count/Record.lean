import JsonBind.Model
import JsonBind.Struct

/-!
# Count records

A row of a count table: when it was taken, in seconds and as a time of day, and
how many documents there were. A row has any of these columns. Numbers are also
read from strings, and always written as numbers.
-/

namespace JsonBind
namespace Count

structure Record where
  epoch : Option Int64
  timestamp : Option String
  count : Option Int64
  deriving DecidableEq

namespace Record

def empty : Record :=
  ⟨none, none, none⟩

def ofCount (count : Int64) : Record :=
  { empty with count := some count }

def epochField : Field :=
  ⟨"epoch", ["t", "time"]⟩

def timestampField : Field :=
  ⟨"timestamp", ["ts", "hms", "hhmmss"]⟩

def countField : Field :=
  ⟨"count", ["dc", "docs.count", "docsCount"]⟩

def table : Table Record Unit where
  name := "count_record"
  lenient := false
  empty := empty
  columns :=
    [ ⟨epochField, .long fun record epoch => { record with epoch := some epoch }⟩,
      ⟨timestampField, .string fun record timestamp =>
        { record with timestamp := some timestamp }⟩,
      ⟨countField, .long fun record count => { record with count := some count }⟩ ]

theorem table_declared :
    (Table.new table.name table.lenient empty).declareAll table.columns = .ok table := by
  rfl

def writeColumn (field : Field) (column : Option Value) : Write Unit :=
  match column with
  | some value => Builder.fieldValue field.name value
  | none => return ()

def write (record : Record) : Write Unit := do
  Builder.openObject
  writeColumn epochField (record.epoch.map Value.long)
  writeColumn timestampField (record.timestamp.map Value.string)
  writeColumn countField (record.count.map Value.long)
  Builder.closeObject

instance : Model Record where
  write _ record := record.write
  read document := table.apply document ()

def struct : Struct Record where
  name := "CountRecord"
  empty := empty
  slots :=
    [ .long "epoch" ["epoch", "t", "time"] (·.epoch)
        fun epoch record => { record with epoch := some epoch },
      .string "timestamp" ["hhmmss", "hms", "timestamp", "ts"] (·.timestamp)
        fun timestamp record => { record with timestamp := some timestamp },
      .long "count" ["count", "dc", "docs.count", "docsCount"] (·.count)
        fun count record => { record with count := some count } ]

end Record
end Count
end JsonBind
