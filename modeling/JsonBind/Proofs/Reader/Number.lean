import JsonBind.Reader.Number
import JsonBind.Decimal.Written
import JsonBind.Proofs.Reader.Blank

/-!
# Integers read back

An integer reads back from its digits, whatever stands behind them, if that does
not go on with the number. All digits are gathered before the number is told, so
the limit on what is gathered must hold for the digits up to each place.
-/

namespace JsonBind
namespace Decimal

theorem isDigit_of_mem_natural {n : Nat} {c : Char} (h : c ∈ natural n) : c.isDigit = true :=
  Nat.isDigit_of_mem_toDigits (by decide) (by decide) h

theorem natural_of_pos {n : Nat} (h : 0 < n) :
    exists (digit : Char) (digits : List Char), natural n = digit :: digits ∧ digit ≠ '0' := by
  induction n using Nat.strongRecOn with
  | ind n ih =>
      by_cases hlt : n < 10
      · have hdigit : forall m : Nat, m < 10 -> 0 < m -> Nat.digitChar m ≠ '0' := by decide
        exact ⟨n.digitChar, [], Nat.toDigits_of_lt_base hlt, hdigit n hlt h⟩
      · have hbase : 10 ≤ n := Nat.not_lt.mp hlt
        rcases ih (n / 10) (by omega) (by omega) with ⟨digit, digits, heq, hne⟩
        refine ⟨digit, digits ++ [(n % 10).digitChar], ?_, hne⟩
        rw [natural] at heq
        rw [natural, Nat.toDigits_of_base_le (by decide) hbase, heq]
        rfl

theorem le_ofDigitChars (cs : List Char) (start : Nat) :
    start ≤ Nat.ofDigitChars 10 cs start := by
  rw [Nat.ofDigitChars_eq_ofDigitChars_zero]
  have hpow : 1 * start ≤ 10 ^ cs.length * start :=
    Nat.mul_le_mul_right start (Nat.one_le_pow cs.length 10 (by decide))
  omega

end Decimal

theorem Number.ofInt?_of_bounds {n : Int} (bounds : Number.Bounds n) :
    Number.ofInt? n = some (.int n bounds) :=
  dif_pos bounds

namespace Reader

open Scan (Reads)

/-!
# What stands behind a value
-/

/-- A text that ends a value before it: nothing, or a mark or a blank that is part of no value. -/
def Delimits (rest : List Char) : Prop :=
  forall c : Char, rest.head? = some c -> c = ',' ∨ c = ']' ∨ c = '}' ∨ c = '\n'

theorem delimits_nil : Delimits [] := by
  intro c hc
  cases hc

theorem delimits_cons {c : Char} {cs : List Char}
    (h : c = ',' ∨ c = ']' ∨ c = '}' ∨ c = '\n') : Delimits (c :: cs) := by
  intro other hother
  cases hother
  exact h

theorem head?_of_delimits {rest : List Char} (h : Delimits rest) :
    (Utf8.ofChars rest).head?.bind digit? = none ∧
      (Utf8.ofChars rest).head?.map Char.ofUInt8 ≠ some '.' ∧
      (Utf8.ofChars rest).head?.map Char.ofUInt8 ≠ some 'e' ∧
      (Utf8.ofChars rest).head?.map Char.ofUInt8 ≠ some 'E' := by
  cases rest with
  | nil => exact ⟨rfl, by decide⟩
  | cons c cs =>
      rcases h c rfl with rfl | rfl | rfl | rfl
      · rw [Utf8.ofChars_cons_of_lt (by decide), List.head?_cons]
        decide
      · rw [Utf8.ofChars_cons_of_lt (by decide), List.head?_cons]
        decide
      · rw [Utf8.ofChars_cons_of_lt (by decide), List.head?_cons]
        decide
      · rw [Utf8.ofChars_cons_of_lt (by decide), List.head?_cons]
        decide

theorem reads_peekDigit_of_delimits {rest : List Char} (h : Delimits rest) :
    Reads (peekDigit .clean) (Utf8.ofChars rest) none (Utf8.ofChars rest) := by
  rw [← (head?_of_delimits h).left]
  exact (reads_peek (Utf8.ofChars rest)).bind (.pure _ _)

/-!
# Digits
-/

theorem toNat_lt_of_isDigit {c : Char} (h : c.isDigit = true) : c.toNat < 0x80 :=
  Nat.lt_of_le_of_lt (Char.isDigit_iff_toNat.mp h).right (by decide)

theorem digit?_ascii {c : Char} (h : c.isDigit = true) :
    digit? (Utf8.ascii c) = some (c.toNat - '0'.toNat) := by
  unfold digit?
  simp only [Utf8.ofUInt8_ascii (toNat_lt_of_isDigit h), if_pos h]

theorem reads_peekDigit {c : Char} (h : c.isDigit = true) (cs : List Char) :
    Reads (peekDigit .clean) (Utf8.ofChars (c :: cs)) (some (c.toNat - '0'.toNat))
      (Utf8.ofChars (c :: cs)) := by
  rw [← digit?_ascii h, Utf8.ofChars_cons_of_lt (toNat_lt_of_isDigit h)]
  exact (reads_peek _).bind (.pure _ _)

theorem reads_digitsBelow {limit : Nat} {digits rest : List Char}
    (hdigits : forall c : Char, c ∈ digits -> c.isDigit = true) (hrest : Delimits rest)
    {start : Nat} (taken : Nat) (hlimit : Nat.ofDigitChars 10 digits start < limit) :
    Reads (Scan.iterate (digitBelow .clean limit) (start, taken)) (Utf8.ofChars (digits ++ rest))
      (Nat.ofDigitChars 10 digits start, taken + digits.length) (Utf8.ofChars rest) := by
  induction digits generalizing start taken with
  | nil =>
      refine Reads.iterate_stop ?_
      exact (reads_peekDigit_of_delimits hrest).bind (.pure none (Utf8.ofChars rest))
  | cons c digits ih =>
      have hc : c.isDigit = true := hdigits c List.mem_cons_self
      rw [Nat.ofDigitChars_cons] at hlimit ⊢
      have hbelow : 10 * start + (c.toNat - '0'.toNat) < limit :=
        Nat.lt_of_le_of_lt (Decimal.le_ofDigitChars digits _) hlimit
      have hturn : Reads (digitBelow .clean limit (start, taken))
          (Utf8.ofChars (c :: (digits ++ rest)))
          (some (10 * start + (c.toNat - '0'.toNat), taken + 1))
          (Utf8.ofChars (digits ++ rest)) := by
        apply (reads_peekDigit hc (digits ++ rest)).bind
        simp only [if_pos hbelow]
        rw [Utf8.ofChars_cons_of_lt (toNat_lt_of_isDigit hc)]
        exact (reads_next _ _).bind (.pure _ _)
      have hlast : taken + (c :: digits).length = taken + 1 + digits.length := by
        rw [List.length_cons]
        omega
      rw [hlast]
      refine hturn.iterate_more ?_ (ih ?_ (taken + 1) hlimit)
      · rw [Utf8.ofChars_cons_of_lt (toNat_lt_of_isDigit hc)]
        exact Nat.lt_succ_self _
      · intro other hother
        exact hdigits other (List.mem_cons_of_mem c hother)

theorem reads_skipDigits {rest : List Char} (h : Delimits rest) :
    Reads (skipDigits .clean) (Utf8.ofChars rest) 0 (Utf8.ofChars rest) := by
  have hrest : forall b : UInt8, (Utf8.ofChars rest).head? = some b ->
      (digit? b).isSome = false := by
    intro b hb
    have hdigit := (head?_of_delimits h).left
    rw [hb, Option.bind_some] at hdigit
    rw [hdigit]
    rfl
  have hrun : Reads (Scan.takeWhile fun byte => (digit? byte).isSome : Reader (List UInt8))
      ([] ++ Utf8.ofChars rest) [] (Utf8.ofChars rest) :=
    Scan.reads_takeWhile (fun b hb => by cases hb) hrest
  exact hrun.bind ((reads_peek (Utf8.ofChars rest)).bind (.pure 0 (Utf8.ofChars rest)))

/-!
# Integers
-/

theorem reads_afterInteger {rest : List Char} (h : Delimits rest) {numeral : Numeral} {n : Number}
    (hwhole : Reads (whole { numeral with exponent := 0 }) (Utf8.ofChars rest) n
      (Utf8.ofChars rest)) :
    Reads (afterInteger .clean numeral 0) (Utf8.ofChars rest) n (Utf8.ofChars rest) := by
  rcases head?_of_delimits h with ⟨_, hpoint, hlower, hupper⟩
  apply (reads_peek (Utf8.ofChars rest)).bind
  split
  · rename_i hahead
    exact absurd hahead hpoint
  · rename_i hahead
    exact absurd hahead hlower
  · rename_i hahead
    exact absurd hahead hupper
  · rw [if_pos rfl]
    exact hwhole

theorem sub_ne_zero_of_isDigit {c : Char} (h : c.isDigit = true) (hne : c ≠ '0') :
    c.toNat - '0'.toNat ≠ 0 := by
  have hbounds := Char.isDigit_iff_toNat.mp h
  intro hzero
  apply hne
  rw [← Char.toNat_inj]
  omega

theorem reads_unsigned {m : Nat} (hlimit : m < significandLimit) {rest : List Char}
    (h : Delimits rest) {negative : Bool} {n : Number}
    (hwhole : Reads (whole ⟨negative, m, 0⟩) (Utf8.ofChars rest) n (Utf8.ofChars rest)) :
    Reads (unsigned .clean negative) (Utf8.ofChars (Decimal.natural m ++ rest)) n
      (Utf8.ofChars rest) := by
  have hafter := @reads_afterInteger rest h ⟨negative, m, 0⟩ n hwhole
  have hdigits : forall c : Char, c ∈ Decimal.natural m -> c.isDigit = true := by
    intro c hc
    exact Decimal.isDigit_of_mem_natural hc
  have hvalue : Nat.ofDigitChars 10 (Decimal.natural m) 0 = m := Nat.ofDigitChars_ten_toDigits
  by_cases hzero : m = 0
  · subst hzero
    rw [show Decimal.natural 0 = ['0'] from rfl, List.singleton_append,
      Utf8.ofChars_cons_of_lt (by decide)]
    apply (reads_next _ _).bind
    exact (reads_peekDigit_of_delimits h).bind hafter
  · rcases Decimal.natural_of_pos (Nat.pos_of_ne_zero hzero) with ⟨digit, digits, heq, hne⟩
    rw [heq] at hdigits hvalue ⊢
    have hdigit : digit.isDigit = true := hdigits digit List.mem_cons_self
    rw [Nat.ofDigitChars_cons, Nat.mul_zero, Nat.zero_add] at hvalue
    rw [List.cons_append, Utf8.ofChars_cons_of_lt (toNat_lt_of_isDigit hdigit)]
    apply (reads_next _ _).bind
    simp only [digit?_ascii hdigit]
    split
    · rename_i hnone
      cases hnone
    · rename_i hsome
      rw [Option.some_inj] at hsome
      exact absurd hsome (sub_ne_zero_of_isDigit hdigit hne)
    · rename_i first _ hsome
      rw [Option.some_inj] at hsome
      subst hsome
      rw [← hvalue] at hlimit
      have hmore := reads_digitsBelow (fun c hc => hdigits c (List.mem_cons_of_mem digit hc)) h 0
        hlimit
      rw [hvalue] at hmore
      exact hmore.bind ((reads_skipDigits h).bind hafter)

theorem reads_whole_positive {m : Nat} {n : Number} (h : Number.ofInt? (Int.ofNat m) = some n)
    (input : List UInt8) : Reads (whole ⟨false, m, 0⟩) input n input := by
  unfold whole
  simp only [Bool.false_eq_true, if_false, h]
  exact Reads.pure n input

theorem reads_whole_negative {m : Nat} (hzero : m ≠ 0) {n : Number}
    (h : Number.ofInt? (-Int.ofNat m) = some n) (input : List UInt8) :
    Reads (whole ⟨true, m, 0⟩) input n input := by
  unfold whole
  rw [if_pos rfl, if_neg hzero]
  simp only [h]
  exact Reads.pure n input

theorem reads_unsigned_ofNat {m : Nat} (bounds : Number.Bounds (Int.ofNat m))
    {rest : List Char} (h : Delimits rest) :
    Reads (unsigned .clean false) (Utf8.ofChars (Decimal.natural m ++ rest))
      (.int (Int.ofNat m) bounds) (Utf8.ofChars rest) := by
  have hlimit : m < significandLimit := Int.ofNat_lt.mp bounds.right
  exact reads_unsigned hlimit h (reads_whole_positive (Number.ofInt?_of_bounds bounds) _)

theorem reads_unsigned_negSucc {m : Nat}
    (bounds : Number.Bounds (Int.negSucc m)) {rest : List Char}
    (h : Delimits rest) :
    Reads (unsigned .clean true) (Utf8.ofChars (Decimal.natural (m + 1) ++ rest))
      (.int (Int.negSucc m) bounds) (Utf8.ofChars rest) := by
  have hlimit : m + 1 < significandLimit := by
    have hleast := bounds.left
    rw [Int.negSucc_eq] at hleast
    change m + 1 < 0x10000000000000000
    omega
  have hint : Number.ofInt? (-Int.ofNat (m + 1)) = some (.int (Int.negSucc m) bounds) :=
    Number.ofInt?_of_bounds bounds
  exact reads_unsigned hlimit h (reads_whole_negative (Nat.succ_ne_zero m) hint _)

end Reader
end JsonBind
