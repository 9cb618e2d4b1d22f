import JsonBind.Reader.Tree
import JsonBind.Value.Depth
import JsonBind.Proofs.Scan

/-!
# What reading takes

Whichever way the bytes end, a reader that looks at a byte leaves it, and a reader that
goes over blanks stops at the byte it looked at. A value takes at least one byte.
-/

namespace JsonBind
namespace Reader

open Scan (Reads Advances reads_bind_iff reads_pure_iff)

variable {α : Type} {ending : Ending}

theorem not_reads_fault (cause : Cause) (mark : Mark) (input : List UInt8) (a : α)
    (rest : List UInt8) : ¬ Reads (fault cause mark : Reader α) input a rest :=
  Scan.not_reads_fail _ input a rest

/-!
# Single bytes
-/

theorem eq_of_reads_peek {input rest : List UInt8} {byte : Option UInt8}
    (h : Reads (peek ending) input byte rest) : byte = input.head? ∧ rest = input := by
  rcases reads_bind_iff.mp h with ⟨ahead, mid, hahead, hmatch⟩
  rcases hahead.unique (Scan.reads_peek input) with ⟨rfl, rfl⟩
  split at hmatch
  · exact absurd hmatch (not_reads_fault _ _ _ _ _)
  · exact reads_pure_iff.mp hmatch

theorem reads_next_cons (ending : Ending) (byte : UInt8) (rest : List UInt8) :
    Reads (next ending) (byte :: rest) (some byte) rest := by
  apply (Scan.reads_next byte rest).bind
  exact Reads.pure (some byte) rest

theorem reads_peek_cons (ending : Ending) (byte : UInt8) (rest : List UInt8) :
    Reads (peek ending) (byte :: rest) (some byte) (byte :: rest) := by
  apply (Scan.reads_peek (byte :: rest)).bind
  exact Reads.pure (some byte) (byte :: rest)

/-- A reader that went over blanks would find the same byte again. -/
theorem reads_again {input mid : List UInt8} {byte : Option UInt8}
    (h : Reads (peekBehindBlanks ending) input byte mid) :
    byte = mid.head? ∧ Reads (peekBehindBlanks ending) mid byte mid := by
  rcases reads_bind_iff.mp h with ⟨blanks, behind, hblanks, hpeek⟩
  rcases eq_of_reads_peek hpeek with ⟨rfl, rfl⟩
  rcases hblanks.unique ⟨_, rfl, rfl, rfl⟩ with ⟨rfl, rfl⟩
  constructor
  · rfl
  · refine Reads.bind (@Scan.reads_takeWhile _ _ isBlank [] _ ?_ ?_) hpeek
    · intro b hb
      cases hb
    · intro b hb
      exact Scan.eq_false_of_head?_dropWhile hb

theorem length_lt_of_reads_next_bind {f : Option UInt8 -> Reader α} {byte : UInt8}
    {input rest : List UInt8} {a : α} (h : Reads (next ending >>= f) (byte :: input) a rest) :
    rest.length < (byte :: input).length := by
  rcases reads_bind_iff.mp h with ⟨taken, mid, hnext, hmore⟩
  rcases hnext.unique (reads_next_cons ending byte input) with ⟨_, rfl⟩
  exact Nat.lt_succ_of_le hmore.le

/-!
# Scalars
-/

theorem advances_scalar : Advances (scalar ending) := by
  intro input v rest h
  rcases reads_bind_iff.mp h with ⟨byte, mid, hpeek, hmatch⟩
  rcases eq_of_reads_peek hpeek with ⟨rfl, rfl⟩
  cases mid with
  | nil => exact absurd hmatch (not_reads_fault _ _ _ _ _)
  | cons byte tail =>
      split at hmatch
      · exact absurd hmatch (not_reads_fault _ _ _ _ _)
      · exact length_lt_of_reads_next_bind hmatch
      · exact length_lt_of_reads_next_bind hmatch
      · exact length_lt_of_reads_next_bind hmatch
      · exact length_lt_of_reads_next_bind hmatch
      · exact length_lt_of_reads_next_bind hmatch
      · split at hmatch
        · rcases reads_bind_iff.mp hmatch with ⟨n, behind, hnumber, hpure⟩
          exact Nat.lt_of_le_of_lt hpure.le (length_lt_of_reads_next_bind hnumber)
        · exact absurd hmatch (not_reads_fault _ _ _ _ _)

theorem kind_of_reads_scalar {input rest : List UInt8} {v : Value}
    (h : Reads (scalar ending) input v rest) :
    v.isContainer = false ∧
      forall text : String, v = .string text -> input.head?.map Char.ofUInt8 = some '"' := by
  rcases reads_bind_iff.mp h with ⟨byte, mid, hpeek, hmatch⟩
  rcases eq_of_reads_peek hpeek with ⟨rfl, rfl⟩
  split at hmatch
  · exact absurd hmatch (not_reads_fault _ _ _ _ _)
  · simp only [reads_bind_iff, reads_pure_iff] at hmatch
    rcases hmatch with ⟨_, _, _, _, _, _, rfl, _⟩
    simp [Value.isContainer]
  · simp only [reads_bind_iff, reads_pure_iff] at hmatch
    rcases hmatch with ⟨_, _, _, _, _, _, rfl, _⟩
    simp [Value.isContainer]
  · simp only [reads_bind_iff, reads_pure_iff] at hmatch
    rcases hmatch with ⟨_, _, _, _, _, _, rfl, _⟩
    simp [Value.isContainer]
  · rename_i hquote
    simp only [reads_bind_iff, reads_pure_iff] at hmatch
    rcases hmatch with ⟨_, _, _, _, _, _, rfl, _⟩
    exact ⟨rfl, fun _ _ => hquote⟩
  · simp only [reads_bind_iff, reads_pure_iff] at hmatch
    rcases hmatch with ⟨_, _, _, _, _, _, rfl, _⟩
    simp [Value.isContainer]
  · split at hmatch
    · simp only [reads_bind_iff, reads_pure_iff] at hmatch
      rcases hmatch with ⟨_, _, _, rfl, _⟩
      simp [Value.isContainer]
    · exact absurd hmatch (not_reads_fault _ _ _ _ _)

theorem reads_scalar_quote_iff {input rest : List UInt8} {v : Value}
    (h : input.head?.map Char.ofUInt8 = some '"') :
    Reads (scalar ending) input v rest <->
      exists text : String,
        Reads (do let _ ← next ending; string ending) input text rest ∧ v = .string text := by
  cases input with
  | nil => cases h
  | cons byte input =>
      have hscalar : Reads (scalar ending) (byte :: input) v rest <->
          Reads (do
            let _ ← next ending
            return Value.string (← string ending)) (byte :: input) v rest := by
        unfold scalar
        rw [reads_bind_iff]
        constructor
        · rintro ⟨_, _, hpeek, hmatch⟩
          rcases hpeek.unique (reads_peek_cons ending byte input) with ⟨rfl, rfl⟩
          rw [show (some byte).map Char.ofUInt8 = some '"' from h] at hmatch
          exact hmatch
        · intro hmatch
          refine ⟨some byte, byte :: input, reads_peek_cons ending byte input, ?_⟩
          rw [show (some byte).map Char.ofUInt8 = some '"' from h]
          exact hmatch
      simp only [hscalar, reads_bind_iff, reads_pure_iff]
      constructor
      · rintro ⟨taken, mid, hnext, text, _, hstring, rfl, rfl⟩
        exact ⟨text, ⟨taken, mid, hnext, hstring⟩, rfl⟩
      · rintro ⟨text, ⟨taken, mid, hnext, hstring⟩, rfl⟩
        exact ⟨taken, mid, hnext, text, rest, hstring, rfl, rfl⟩

end Reader
end JsonBind
