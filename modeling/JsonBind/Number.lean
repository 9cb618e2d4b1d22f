/-!
# Numbers

A number of a document is an integer or a double. The integers are those that
a signed or an unsigned word of 64 bits can hold; the doubles are finite. The
two forms stay apart: `5` and `5.0` are different numbers.
-/

namespace JsonBind

abbrev Number.Bounds (n : Int) : Prop :=
  -0x8000000000000000 ≤ n ∧ n < 0x10000000000000000

inductive Number where
  | int (n : Int) (bounds : Number.Bounds n)
  | float (x : Float) (finite : x.isFinite = true)

namespace Number

def ofInt? (n : Int) : Option Number :=
  if bounds : Bounds n then some (.int n bounds) else none

def ofFloat? (x : Float) : Option Number :=
  if finite : x.isFinite = true then some (.float x finite) else none

def ofLong (n : Int64) : Number :=
  .int n.toInt ⟨n.le_toInt, Int.lt_trans n.toInt_lt (by decide)⟩

def ofWord (n : UInt64) : Number :=
  .int n.toNat ⟨Int.le_trans (by decide) (Int.natCast_nonneg _),
    Int.ofNat_lt.mpr n.toNat_lt⟩

/-- The long of the same value: integers from 2^63 on have none, doubles never do. -/
def long? : Number -> Option Int64
  | .int n _ => if n < 0x8000000000000000 then some (Int64.ofInt n) else none
  | .float _ _ => none

end Number
end JsonBind
