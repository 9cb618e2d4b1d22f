import JsonBind.Reader.Container
import JsonBind.Proofs.Reader.Text

/-!
# Containers read back

The steps from one item or member to the next, on the text that is written
between them, and the brackets around them all.
-/

namespace JsonBind
namespace Reader

open Scan (Reads)

variable {α σ : Type}

namespace Bracket

def opening : Bracket -> Char
  | .square => '['
  | .curly => '{'

def closing : Bracket -> Char
  | .square => ']'
  | .curly => '}'

theorem isMark_opening (bracket : Bracket) : IsMark bracket.opening := by
  cases bracket <;> decide

theorem isMark_closing (bracket : Bracket) : IsMark bracket.closing := by
  cases bracket <;> decide

end Bracket

/-!
# Items
-/

theorem reads_itemFollows_end (first : Bool) {blanks : List Char} (hblanks : Blanks blanks)
    (cs : List Char) :
    Reads (itemFollows .clean first) (Utf8.ofChars (blanks ++ ']' :: cs)) false
      (Utf8.ofChars (']' :: cs)) :=
  (reads_peekBehindBlanks hblanks (Bracket.isMark_closing .square) cs).bind (.pure false _)

theorem reads_itemFollows_first {blanks : List Char} (hblanks : Blanks blanks) {c : Char}
    (h : IsMark c) (hne : c ≠ ']') (cs : List Char) :
    Reads (itemFollows .clean true) (Utf8.ofChars (blanks ++ c :: cs)) true
      (Utf8.ofChars (c :: cs)) := by
  apply (reads_peekBehindBlanks hblanks h cs).bind
  rw [map_ofUInt8_of_isMark h]
  split
  · rename_i hnone
    cases hnone
  · rename_i hclose
    exact absurd (Option.some.inj hclose) hne
  · exact Reads.pure true _
  · exact Reads.pure true _

theorem reads_itemFollows_next {blanks : List Char} (hblanks : Blanks blanks) {c : Char}
    (h : IsMark c) (hne : c ≠ ']') (cs : List Char) :
    Reads (itemFollows .clean false) (Utf8.ofChars (',' :: (blanks ++ c :: cs))) true
      (Utf8.ofChars (c :: cs)) := by
  apply (reads_peekBehindBlanks blanks_nil isMark_comma _).bind
  apply (reads_next_of_isMark isMark_comma _).bind
  apply (reads_peekBehindBlanks hblanks h cs).bind
  rw [map_ofUInt8_of_isMark h]
  split
  · rename_i hnone
    cases hnone
  · rename_i hclose
    exact absurd (Option.some.inj hclose) hne
  · exact Reads.pure true _

/-!
# Members
-/

theorem reads_name (text : String) (cs : List Char) :
    Reads (name .clean) (Utf8.ofChars (Text.stringAppend text cs)) (some text)
      (Utf8.ofChars cs) := by
  apply (reads_next_of_isMark isMark_quote _).bind
  exact (reads_string text cs).bind (.pure (some text) _)

theorem reads_nameFollows_end (first : Bool) {blanks : List Char} (hblanks : Blanks blanks)
    (cs : List Char) :
    Reads (nameFollows .clean first) (Utf8.ofChars (blanks ++ '}' :: cs)) none
      (Utf8.ofChars ('}' :: cs)) :=
  (reads_peekBehindBlanks hblanks (Bracket.isMark_closing .curly) cs).bind (.pure none _)

theorem reads_nameFollows_first {blanks : List Char} (hblanks : Blanks blanks) (text : String)
    (cs : List Char) :
    Reads (nameFollows .clean true) (Utf8.ofChars (blanks ++ Text.stringAppend text cs))
      (some text) (Utf8.ofChars cs) :=
  (reads_peekBehindBlanks hblanks isMark_quote _).bind (reads_name text cs)

theorem reads_nameFollows_next {blanks : List Char} (hblanks : Blanks blanks) (text : String)
    (cs : List Char) :
    Reads (nameFollows .clean false)
      (Utf8.ofChars (',' :: (blanks ++ Text.stringAppend text cs))) (some text)
      (Utf8.ofChars cs) := by
  apply (reads_peekBehindBlanks blanks_nil isMark_comma _).bind
  apply (reads_next_of_isMark isMark_comma _).bind
  exact (reads_peekBehindBlanks hblanks isMark_quote _).bind (reads_name text cs)

theorem reads_colon (cs : List Char) :
    Reads (colon .clean) (Utf8.ofChars (':' :: cs)) () (Utf8.ofChars cs) := by
  apply (reads_peekBehindBlanks blanks_nil isMark_colon cs).bind
  exact (reads_next_of_isMark isMark_colon cs).bind (.pure () _)

/-!
# Brackets
-/

theorem reads_close (bracket : Bracket) {blanks : List Char} (hblanks : Blanks blanks)
    (cs : List Char) :
    Reads (close .clean bracket) (Utf8.ofChars (blanks ++ bracket.closing :: cs)) ()
      (Utf8.ofChars cs) := by
  have hpeek := reads_peekBehindBlanks hblanks bracket.isMark_closing cs
  have hnext := reads_next_of_isMark bracket.isMark_closing cs
  cases bracket with
  | square => exact hpeek.bind (hnext.bind (.pure () _))
  | curly => exact hpeek.bind (hnext.bind (.pure () _))

theorem reads_enclosed (bracket : Bracket) {inside : Reader α} {cs blanks rest : List Char}
    {a : α} (hblanks : Blanks blanks)
    (h : Reads inside (Utf8.ofChars cs) a (Utf8.ofChars (blanks ++ bracket.closing :: rest))) :
    Reads (enclosed .clean bracket inside) (Utf8.ofChars (bracket.opening :: cs)) a
      (Utf8.ofChars rest) := by
  have hwhole : Reads (do
      let _ ← next .clean
      let found ← inside
      close .clean bracket
      return found) (Utf8.ofChars (bracket.opening :: cs)) a (Utf8.ofChars rest) := by
    refine (reads_next_of_isMark bracket.isMark_opening cs).bind (h.bind ?_)
    exact (reads_close bracket hblanks rest).bind (.pure a _)
  rcases hwhole with ⟨found, hrun, hresult, hrest⟩
  refine ⟨found, ?_, hresult, hrest⟩
  unfold enclosed
  simp only [hrun]
  rfl

end Reader
end JsonBind
