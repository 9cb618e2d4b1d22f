import JsonBind.Reader.Tree
import JsonBind.Proofs.Reader.Number
import JsonBind.Proofs.Reader.Text

/-!
# Scalars read back

The first byte of a scalar tells what it is. Words and strings end by themselves;
an integer ends where something stands that is part of no value.
-/

namespace JsonBind
namespace Reader

open Scan (Reads)

theorem reads_word {letters : List Char} (h : letters.all (·.toNat < 0x80) = true)
    (rest : List Char) :
    Reads (word .clean letters) (Utf8.ofChars (letters ++ rest)) () (Utf8.ofChars rest) := by
  induction letters with
  | nil => exact Reads.pure () (Utf8.ofChars rest)
  | cons letter letters ih =>
      rw [List.all_cons, Bool.and_eq_true, decide_eq_true_eq] at h
      rcases h with ⟨hletter, hletters⟩
      rw [List.cons_append, Utf8.ofChars_cons_of_lt hletter]
      apply (reads_next _ _).bind
      simp only [Utf8.ofUInt8_ascii hletter, if_true]
      exact ih hletters

theorem reads_scalar_null (rest : List Char) :
    Reads (scalar .clean) (Utf8.ofChars ('n' :: 'u' :: 'l' :: 'l' :: rest)) .null
      (Utf8.ofChars rest) := by
  apply (reads_peek_of_isMark (by decide) _).bind
  apply (reads_next_of_isMark (by decide) _).bind
  exact (reads_word rfl rest).bind (.pure Value.null _)

theorem reads_scalar_true (rest : List Char) :
    Reads (scalar .clean) (Utf8.ofChars ('t' :: 'r' :: 'u' :: 'e' :: rest)) (.bool true)
      (Utf8.ofChars rest) := by
  apply (reads_peek_of_isMark (by decide) _).bind
  apply (reads_next_of_isMark (by decide) _).bind
  exact (reads_word rfl rest).bind (.pure (Value.bool true) _)

theorem reads_scalar_false (rest : List Char) :
    Reads (scalar .clean) (Utf8.ofChars ('f' :: 'a' :: 'l' :: 's' :: 'e' :: rest)) (.bool false)
      (Utf8.ofChars rest) := by
  apply (reads_peek_of_isMark (by decide) _).bind
  apply (reads_next_of_isMark (by decide) _).bind
  exact (reads_word rfl rest).bind (.pure (Value.bool false) _)

theorem reads_scalar_string (text : String) (rest : List Char) :
    Reads (scalar .clean) (Utf8.ofChars (Text.stringAppend text rest)) (.string text)
      (Utf8.ofChars rest) := by
  apply (reads_peek_of_isMark isMark_quote _).bind
  apply (reads_next_of_isMark isMark_quote _).bind
  exact (reads_string text rest).bind (.pure (Value.string text) _)

theorem isMark_of_isDigit {c : Char} (h : c.isDigit = true) : IsMark c := by
  have hascii := toNat_lt_of_isDigit h
  refine ⟨hascii, ?_⟩
  unfold isBlank
  rw [Utf8.ofUInt8_ascii hascii]
  split
  · cases h
  · cases h
  · cases h
  · cases h
  · rfl

theorem reads_scalar_of_isDigit {c : Char} (h : c.isDigit = true) {cs : List Char} {n : Number}
    {rest : List UInt8}
    (hunsigned : Reads (unsigned .clean false) (Utf8.ofChars (c :: cs)) n rest) :
    Reads (scalar .clean) (Utf8.ofChars (c :: cs)) (.number n) rest := by
  have hmark := isMark_of_isDigit h
  apply (reads_peek_of_isMark hmark cs).bind
  rw [map_ofUInt8_of_isMark hmark]
  split
  · rename_i heq
    cases heq
  · rename_i heq
    cases heq
    cases h
  · rename_i heq
    cases heq
    cases h
  · rename_i heq
    cases heq
    cases h
  · rename_i heq
    cases heq
    cases h
  · rename_i heq
    cases heq
    cases h
  · rename_i heq
    cases heq
    rw [if_pos h]
    exact hunsigned.bind (.pure (Value.number n) rest)

theorem exists_natural_eq_cons (n : Nat) :
    exists (digit : Char) (digits : List Char),
      Decimal.natural n = digit :: digits ∧ digit.isDigit = true := by
  cases heq : Decimal.natural n with
  | nil => exact absurd heq Nat.toDigits_ne_nil
  | cons digit digits =>
      refine ⟨digit, digits, rfl, Decimal.isDigit_of_mem_natural (n := n) ?_⟩
      rw [heq]
      exact List.mem_cons_self

theorem reads_scalar_int {n : Int} (bounds : Number.Bounds n) {rest : List Char}
    (h : Delimits rest) :
    Reads (scalar .clean) (Utf8.ofChars (Decimal.integer n ++ rest)) (.number (.int n bounds))
      (Utf8.ofChars rest) := by
  cases n with
  | ofNat m =>
      have hunsigned := reads_unsigned_ofNat bounds h
      rw [Decimal.integer]
      rcases exists_natural_eq_cons m with ⟨digit, digits, heq, hdigit⟩
      rw [heq] at hunsigned ⊢
      exact reads_scalar_of_isDigit hdigit hunsigned
  | negSucc m =>
      rw [Decimal.integer, List.cons_append]
      apply (reads_peek_of_isMark isMark_minus _).bind
      apply (reads_next_of_isMark isMark_minus _).bind
      exact (reads_unsigned_negSucc bounds h).bind (.pure _ (Utf8.ofChars rest))

end Reader
end JsonBind
