/-!
# Doubles as integers times powers of two

A finite double is `± significand · 2 ^ exponent`. The reals that round to it
reach half way to its two neighbours. The neighbour below is twice as near
where the significand is the least one of its binade.

The double nearest to a decimal is not worked out where the power of ten alone
decides, because it is so great or so small.
-/

namespace JsonBind
namespace Decimal

structure Binary where
  negative : Bool
  significand : Nat
  exponent : Int
  nearBelow : Bool

namespace Binary

def ofFloat (x : Float) : Binary :=
  let bits : Nat := x.toBits.toNat
  let negative := decide (0x8000000000000000 ≤ bits)
  let biased : Nat := bits / 0x10000000000000 % 0x800
  let fraction : Nat := bits % 0x10000000000000
  if biased = 0 then ⟨negative, fraction, -1074, false⟩
  else ⟨negative, 0x10000000000000 + fraction, biased - 1075, decide (fraction = 0 ∧ 1 < biased)⟩

/-- The lower end of the reals that round here, in quarters of `2 ^ exponent`. -/
def low (b : Binary) : Nat :=
  4 * b.significand - (if b.nearBelow then 1 else 2)

def high (b : Binary) : Nat :=
  4 * b.significand + 2

/-- Whether the two ends themselves round here: a tie goes to the even significand. -/
def closed (b : Binary) : Bool :=
  b.significand % 2 == 0

end Binary

def nearest (digits : Nat) (exponent : Int) : Float :=
  let power := exponent + (Nat.toDigits 10 digits).length
  if digits = 0 ∨ power < -400 then 0.0
  else if 400 < power then 1.0 / 0.0
  else if exponent < 0 then Float.ofScientific digits true exponent.natAbs
  else Float.ofScientific digits false exponent.natAbs

end Decimal
end JsonBind
