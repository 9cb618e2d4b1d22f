import JsonBind.Decimal.Binary

/-!
# Fewest digits that read back

Of the decimals `digits · 10 ^ exponent` that round to a double, the coarsest
grid `10 ^ exponent` that has one is taken, and on it the decimal next to the
double; half way between two, the even one. If any point of a grid rounds to
the double, so does one of its two neighbours on that grid, so only those are
tried. All is done in natural numbers.
-/

namespace JsonBind
namespace Decimal

structure Digits where
  digits : Nat
  exponent : Int

/-- `quarters · 2 ^ (exponent - 2)` and `10 ^ grid` over one denominator. -/
def overGrid (exponent grid : Int) (quarters : Nat) : Nat × Nat :=
  (quarters * Nat.pow 2 (exponent - 2).toNat * Nat.pow 10 (-grid).toNat,
    Nat.pow 2 (2 - exponent).toNat * Nat.pow 10 grid.toNat)

def Binary.admits (b : Binary) (grid : Int) (candidate : Nat) : Bool :=
  let (low, unit) := overGrid b.exponent grid b.low
  let (high, _) := overGrid b.exponent grid b.high
  let point := candidate * unit
  if b.closed then decide (low ≤ point ∧ point ≤ high)
  else decide (low < point ∧ point < high)

def Binary.onGrid? (b : Binary) (grid : Int) : Option Nat :=
  let (value, unit) := overGrid b.exponent grid (4 * b.significand)
  let below := value / unit
  let above := below + 1
  match b.admits grid below, b.admits grid above with
  | true, true =>
      let toBelow := value - below * unit
      let toAbove := above * unit - value
      if toBelow < toAbove then some below
      else if toAbove < toBelow then some above
      else if below % 2 = 0 then some below
      else some above
  | true, false => some below
  | false, true => some above
  | false, false => none

/-- The first of `count` grids, from `10 ^ grid` to finer ones, that has a decimal of the double. -/
def Binary.search (b : Binary) (grid : Int) : Nat -> Option Digits
  | 0 => none
  | count + 1 =>
      match b.onGrid? grid with
      | some digits => some ⟨digits, grid⟩
      | none => b.search (grid - 1) count

def Binary.coarse (b : Binary) : Int :=
  (b.exponent + b.significand.log2 + 1) * 30103 / 100000 + 2

/-- The shortest decimal of a positive double; seventeen digits always suffice. -/
def Binary.shortest (b : Binary) : Digits :=
  (b.search b.coarse 24).getD ⟨b.significand, 0⟩

end Decimal
end JsonBind
