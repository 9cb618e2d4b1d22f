import JsonBind.Reader.Text
import JsonBind.Proofs.Reader.Blank

/-!
# Strings read back

A quoted string reads back to itself. Its characters are taken one after the
other, each with all its bytes or with its escape; what was taken so far is kept
in reverse.
-/

namespace JsonBind
namespace Reader

open Scan (Reads)

theorem reads_nextInString (b : UInt8) (rest : List UInt8) :
    Reads (nextInString .clean) (b :: rest) b rest :=
  (reads_next b rest).bind (.pure b rest)

theorem reads_nextInString_char {c : Char} (h : c.toNat < 0x80) (cs : List Char) :
    Reads (nextInString .clean) (Utf8.ofChars (c :: cs)) (Utf8.ascii c) (Utf8.ofChars cs) := by
  rw [Utf8.ofChars_cons_of_lt h]
  exact reads_nextInString (Utf8.ascii c) (Utf8.ofChars cs)

/-!
# Escapes
-/

theorem hexDigit_toNat_lt (n : Nat) : (Text.hexDigit n).toNat < 0x80 := by
  have hdigit : forall m : Nat, m < 16 -> (Nat.digitChar m).toNat < 0x80 := by decide
  exact hdigit (n % 16) (Nat.mod_lt n (by decide))

theorem hexDigit?_ascii_hexDigit (n : Nat) :
    hexDigit? (Utf8.ascii (Text.hexDigit n)) = some (n % 16) := by
  have hdigit : forall m : Nat, m < 16 -> hexDigit? (Utf8.ascii (Nat.digitChar m)) = some m := by
    decide
  exact hdigit (n % 16) (Nat.mod_lt n (by decide))

theorem reads_fourHexDigits (a b c d : Nat) (cs : List Char) :
    Reads (fourHexDigits .clean)
      (Utf8.ofChars
        (Text.hexDigit a :: Text.hexDigit b :: Text.hexDigit c :: Text.hexDigit d :: cs))
      (((a % 16 * 16 + b % 16) * 16 + c % 16) * 16 + d % 16) (Utf8.ofChars cs) := by
  apply (reads_nextInString_char (hexDigit_toNat_lt a) _).bind
  apply (reads_nextInString_char (hexDigit_toNat_lt b) _).bind
  apply (reads_nextInString_char (hexDigit_toNat_lt c) _).bind
  apply (reads_nextInString_char (hexDigit_toNat_lt d) _).bind
  rw [hexDigit?_ascii_hexDigit, hexDigit?_ascii_hexDigit, hexDigit?_ascii_hexDigit,
    hexDigit?_ascii_hexDigit]
  exact Reads.pure _ _

theorem reads_escapedCode {c : Char} (h : c.toNat < 0x20) (cs : List Char) :
    Reads (escapedCode .clean)
      (Utf8.ofChars ('0' :: '0' :: Text.hexDigit (c.toNat / 16) :: Text.hexDigit c.toNat :: cs))
      c.toNat (Utf8.ofChars cs) := by
  have hunit : ((0 % 16 * 16 + 0 % 16) * 16 + c.toNat / 16 % 16) * 16 + c.toNat % 16 = c.toNat := by
    omega
  have hdigits := reads_fourHexDigits 0 0 (c.toNat / 16) c.toNat cs
  rw [hunit] at hdigits
  apply hdigits.bind
  have hlow : isLowSurrogate c.toNat = false := decide_eq_false (by omega)
  have hhigh : isHighSurrogate c.toNat = false := decide_eq_false (by omega)
  rw [hlow, hhigh]
  exact Reads.pure c.toNat (Utf8.ofChars cs)

theorem reads_escapedChar_code {c : Char} (h : c.toNat < 0x20) (cs : List Char) :
    Reads (escapedChar .clean)
      (Utf8.ofChars
        ('u' :: '0' :: '0' :: Text.hexDigit (c.toNat / 16) :: Text.hexDigit c.toNat :: cs))
      c (Utf8.ofChars cs) := by
  apply (reads_nextInString_char (by decide) _).bind
  apply (reads_escapedCode h cs).bind
  show Reads (pure (Char.ofNat c.toNat)) _ _ _
  rw [Char.ofNat_toNat]
  exact Reads.pure c (Utf8.ofChars cs)

/-!
# Pieces
-/

def IsPlain (b : UInt8) : Prop :=
  Char.ofUInt8 b ≠ '"' ∧ Char.ofUInt8 b ≠ '\\' ∧ ¬ b < 0x20

theorem reads_piece_of_isPlain {b : UInt8} (h : IsPlain b) (taken rest : List UInt8) :
    Reads (piece .clean taken) (b :: rest) (some (b :: taken)) rest := by
  apply (reads_nextInString b rest).bind
  split
  · exact absurd ‹_› h.left
  · exact absurd ‹_› h.right.left
  · rw [if_neg h.right.right]
    exact Reads.pure (some (b :: taken)) rest

theorem reads_piece_escape {c : Char} {code cs : List Char}
    (h : Reads (escapedChar .clean) (Utf8.ofChars (code ++ cs)) c (Utf8.ofChars cs))
    (taken : List UInt8) :
    Reads (piece .clean taken) (Utf8.ofChars ('\\' :: code ++ cs))
      (some ((String.utf8EncodeChar c).reverse ++ taken)) (Utf8.ofChars cs) := by
  apply (reads_nextInString_char (by decide) (code ++ cs)).bind
  exact h.bind (.pure _ (Utf8.ofChars cs))

theorem reads_pieces_of_isPlain {bytes taken rest last left : List UInt8}
    (h : forall b : UInt8, b ∈ bytes -> IsPlain b)
    (h' : Reads (Scan.iterate (piece .clean) (bytes.reverse ++ taken)) rest last left) :
    Reads (Scan.iterate (piece .clean) taken) (bytes ++ rest) last left := by
  induction bytes generalizing taken with
  | nil => exact h'
  | cons b bytes ih =>
      have hstep := reads_piece_of_isPlain (h b List.mem_cons_self) taken (bytes ++ rest)
      refine hstep.iterate_more (Nat.lt_succ_self _) (ih ?_ ?_)
      · intro other hother
        exact h other (List.mem_cons_of_mem b hother)
      · rw [List.reverse_cons, List.append_assoc] at h'
        exact h'

theorem reads_pieces_escape {c : Char} {code cs : List Char} {taken last left : List UInt8}
    (h : Reads (escapedChar .clean) (Utf8.ofChars (code ++ cs)) c (Utf8.ofChars cs))
    (h' : Reads (Scan.iterate (piece .clean) ((String.utf8EncodeChar c).reverse ++ taken))
      (Utf8.ofChars cs) last left) :
    Reads (Scan.iterate (piece .clean) taken) (Utf8.ofChars ('\\' :: code ++ cs)) last left := by
  refine (reads_piece_escape h taken).iterate_more ?_ h'
  rw [List.cons_append, Utf8.ofChars_cons_of_lt (by decide), Utf8.ofChars_append,
    List.length_cons, List.length_append]
  omega

theorem isPlain_of_mem {c : Char} (hquote : c ≠ '"') (hslash : c ≠ '\\') (h : 0x20 ≤ c.toNat)
    {b : UInt8} (hb : b ∈ String.utf8EncodeChar c) : IsPlain b := by
  by_cases hascii : c.toNat < 0x80
  · rw [Utf8.utf8EncodeChar_of_lt hascii, List.mem_singleton] at hb
    subst hb
    rw [IsPlain, Utf8.ofUInt8_ascii hascii, UInt8.lt_iff_toNat_lt, Utf8.toNat_ascii hascii]
    exact ⟨hquote, hslash, Nat.not_lt.mpr h⟩
  · have hbyte := Utf8.le_of_mem_utf8EncodeChar (Nat.not_lt.mp hascii) hb
    have hne : forall mark : Char, mark.toNat < 0x80 -> Char.ofUInt8 b ≠ mark := by
      intro mark hmark heq
      subst heq
      exact absurd hmark (Nat.not_lt.mpr hbyte)
    refine ⟨hne '"' (by decide), hne '\\' (by decide), ?_⟩
    rw [UInt8.lt_iff_toNat_lt]
    exact Nat.not_lt.mpr (Nat.le_trans (by decide) hbyte)

theorem reads_pieces_char {c : Char} {cs : List Char} {taken last left : List UInt8}
    (h : Reads (Scan.iterate (piece .clean) ((String.utf8EncodeChar c).reverse ++ taken))
      (Utf8.ofChars cs) last left) :
    Reads (Scan.iterate (piece .clean) taken) (Utf8.ofChars (Text.escapedChar c ++ cs))
      last left := by
  have hletter : forall letter : Char,
      Reads (escapedChar .clean) (Utf8.ofChars (letter :: cs)) c (Utf8.ofChars cs) ->
      Reads (Scan.iterate (piece .clean) taken) (Utf8.ofChars ('\\' :: letter :: cs)) last
        left := by
    intro letter hread
    exact @reads_pieces_escape c [letter] cs taken last left hread h
  unfold Text.escapedChar
  split
  · exact hletter '"' ((reads_nextInString_char (by decide) cs).bind (.pure _ _))
  · exact hletter '\\' ((reads_nextInString_char (by decide) cs).bind (.pure _ _))
  · exact hletter 'b' ((reads_nextInString_char (by decide) cs).bind (.pure _ _))
  · exact hletter 't' ((reads_nextInString_char (by decide) cs).bind (.pure _ _))
  · exact hletter 'n' ((reads_nextInString_char (by decide) cs).bind (.pure _ _))
  · exact hletter 'f' ((reads_nextInString_char (by decide) cs).bind (.pure _ _))
  · exact hletter 'r' ((reads_nextInString_char (by decide) cs).bind (.pure _ _))
  · split
    · exact reads_pieces_escape (reads_escapedChar_code ‹_› cs) h
    · rename_i hquote hslash _ _ _ _ _ hcontrol
      rw [List.singleton_append, Utf8.ofChars_cons]
      refine reads_pieces_of_isPlain ?_ h
      intro b hb
      exact isPlain_of_mem hquote hslash (Nat.not_lt.mp hcontrol) hb

/-!
# Whole strings
-/

theorem reads_pieces (cs : List Char) (taken : List UInt8) (rest : List Char) :
    Reads (Scan.iterate (piece .clean) taken)
      (Utf8.ofChars (Text.escapedAppend cs ('"' :: rest)))
      ((Utf8.ofChars cs).reverse ++ taken) (Utf8.ofChars rest) := by
  induction cs generalizing taken with
  | nil =>
      refine Reads.iterate_stop ?_
      exact (reads_nextInString_char (by decide) rest).bind (.pure none (Utf8.ofChars rest))
  | cons c cs ih =>
      refine reads_pieces_char ?_
      rw [Utf8.ofChars_cons, List.reverse_append, List.append_assoc]
      exact ih ((String.utf8EncodeChar c).reverse ++ taken)

theorem reads_string (text : String) (rest : List Char) :
    Reads (string .clean) (Utf8.ofChars (Text.escapedAppend text.toList ('"' :: rest))) text
      (Utf8.ofChars rest) := by
  apply (reads_pieces text.toList [] rest).bind
  rw [List.append_nil, List.reverse_reverse]
  simp only [Utf8.decode?_ofChars, String.ofList_toList]
  exact Reads.pure text (Utf8.ofChars rest)

end Reader
end JsonBind
