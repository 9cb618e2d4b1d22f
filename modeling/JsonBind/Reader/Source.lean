import JsonBind.Reader.Tree

/-!
# Sources

A document is read from a text, from bytes at hand, or from a stream. A stream
is served in chunks of any sizes, out of which one byte is pulled at a time. A
read may be interrupted, and is then tried again, and it may fail, which ends the
stream for good.

Lines and columns count bytes. Bytes at hand are counted up to where reading
got. Of a stream those are counted that had been pulled out of it, a byte that
was only looked at among them.
-/

namespace JsonBind

inductive Read where
  | chunk (first : UInt8) (more : List UInt8)
  | interrupted
  | failed (reason : String)

/-- The reads from a stream; after the last one it ends. -/
abbrev Stream : Type :=
  List Read

inductive Pulled where
  | byte (value : UInt8) (rest : Stream)
  | ended
  | failed (reason : String)

namespace Stream

def pull : Stream -> Pulled
  | [] => .ended
  | .chunk first [] :: reads => .byte first reads
  | .chunk first (second :: more) :: reads => .byte first (.chunk second more :: reads)
  | .interrupted :: reads => pull reads
  | .failed reason :: _ => .failed reason

theorem sizeOf_lt_of_pull {stream rest : Stream} {value : UInt8}
    (h : stream.pull = .byte value rest) : sizeOf rest < sizeOf stream := by
  fun_induction pull stream with
  | case1 => cases h
  | case2 first reads =>
      cases h
      simp only [List.cons.sizeOf_spec]
      omega
  | case3 first second more reads =>
      cases h
      simp only [List.cons.sizeOf_spec, Read.chunk.sizeOf_spec]
      omega
  | case4 reads ih =>
      have hlt := ih h
      simp only [List.cons.sizeOf_spec]
      omega
  | case5 => cases h

def drain (stream : Stream) : List UInt8 × Ending :=
  match _h : stream.pull with
  | .byte value rest =>
      let (bytes, ending) := drain rest
      (value :: bytes, ending)
  | .ended => ([], .clean)
  | .failed reason => ([], .broken reason)
termination_by sizeOf stream
decreasing_by exact sizeOf_lt_of_pull _h

/-- All bytes that a stream serves, and how it ends. -/
def served : Stream -> List UInt8 × Ending
  | [] => ([], .clean)
  | .chunk first more :: reads =>
      let (bytes, ending) := served reads
      (first :: more ++ bytes, ending)
  | .interrupted :: reads => served reads
  | .failed reason :: _ => ([], .broken reason)

end Stream

structure Source where
  bytes : List UInt8
  ending : Ending
  -- Whether bytes that were only looked at count as read.
  pulled : Bool

namespace Source

def ofText (text : String) : Source :=
  ⟨Utf8.encode text, .clean, false⟩

def ofBytes (bytes : List UInt8) : Source :=
  ⟨bytes, .clean, false⟩

def ofStream (stream : Stream) : Source :=
  let (bytes, ending) := stream.drain
  ⟨bytes, ending, true⟩

/-- The number of bytes up to the place of a fault; none if it has no place. -/
def offset? (source : Source) (found : Fault) : Option Nat :=
  let taken := source.bytes.length - found.left.length
  let withNext := min source.bytes.length (taken + 1)
  match found.mark with
  | .unplaced => none
  | .taken => some taken
  | .looked => some (if source.pulled then withNext else taken)
  | .atNext => some withNext

def newline : UInt8 :=
  0x0a

/-- The line, from 1, and the column, from 0, behind some bytes. -/
def lineAndColumn (before : List UInt8) : Nat × Nat :=
  (before.count newline + 1, (before.reverse.takeWhile (· ≠ newline)).length)

def message (source : Source) (found : Fault) : String :=
  match source.offset? found with
  | none => found.cause.message
  | some offset =>
      let (line, column) := lineAndColumn (source.bytes.take offset)
      found.cause.message ++ " at line " ++ String.ofList (Decimal.natural line) ++
        " column " ++ String.ofList (Decimal.natural (column - found.cause.setback))

def read {α : Type} (source : Source) (root : Ending -> Nat -> Reader α) : Except Fault α :=
  match Reader.document source.ending (root source.ending) source.bytes with
  | .ok found => .ok found.result
  | .error found => .error found

def tree (source : Source) : Except Fault Value :=
  source.read Reader.value

end Source
end JsonBind
