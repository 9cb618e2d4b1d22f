import JsonBind.Value.Text
import JsonBind.Reader.Fault
import JsonBind.Proofs.Text.Utf8
import JsonBind.Proofs.Scan

/-!
# Reading behind blanks

Between the marks of a text there are blanks, and what is between them depends on
the layout alone. A reader that looks for a mark goes over the blanks before it.
-/

namespace JsonBind
namespace Reader

open Scan (Reads)

/-!
# Single bytes
-/

theorem reads_next (b : UInt8) (rest : List UInt8) :
    Reads (next .clean) (b :: rest) (some b) rest :=
  (Scan.reads_next b rest).bind (.pure (some b) rest)

theorem reads_peek (input : List UInt8) : Reads (peek .clean) input input.head? input := by
  apply (Scan.reads_peek input).bind
  cases input with
  | nil => exact Reads.pure none []
  | cons b rest => exact Reads.pure (some b) (b :: rest)

def IsMark (c : Char) : Prop :=
  c.toNat < 0x80 ∧ isBlank (Utf8.ascii c) = false

instance (c : Char) : Decidable (IsMark c) :=
  inferInstanceAs (Decidable (_ ∧ _))

theorem isMark_quote : IsMark '"' := by decide

theorem isMark_comma : IsMark ',' := by decide

theorem isMark_colon : IsMark ':' := by decide

theorem isMark_minus : IsMark '-' := by decide

theorem map_ofUInt8_of_isMark {c : Char} (h : IsMark c) :
    (some (Utf8.ascii c)).map Char.ofUInt8 = some c := by
  rw [Option.map_some, Utf8.ofUInt8_ascii h.left]

theorem reads_next_of_isMark {c : Char} (h : IsMark c) (cs : List Char) :
    Reads (next .clean) (Utf8.ofChars (c :: cs)) (some (Utf8.ascii c)) (Utf8.ofChars cs) := by
  rw [Utf8.ofChars_cons_of_lt h.left]
  exact reads_next (Utf8.ascii c) (Utf8.ofChars cs)

theorem reads_peek_of_isMark {c : Char} (h : IsMark c) (cs : List Char) :
    Reads (peek .clean) (Utf8.ofChars (c :: cs)) (some (Utf8.ascii c))
      (Utf8.ofChars (c :: cs)) := by
  rw [Utf8.ofChars_cons_of_lt h.left]
  exact reads_peek (Utf8.ascii c :: Utf8.ofChars cs)

/-!
# Blanks
-/

def Blanks (cs : List Char) : Prop :=
  forall c : Char, c ∈ cs -> c = ' ' ∨ c = '\n'

theorem blanks_nil : Blanks [] := by
  intro c hc
  cases hc

theorem isBlank_of_mem_ofChars {cs : List Char} (h : Blanks cs) {b : UInt8}
    (hb : b ∈ Utf8.ofChars cs) : isBlank b = true := by
  rcases List.mem_flatMap.mp hb with ⟨c, hc, hmem⟩
  rcases h c hc with rfl | rfl
  · rw [Utf8.utf8EncodeChar_of_lt (by decide), List.mem_singleton] at hmem
    subst hmem
    rfl
  · rw [Utf8.utf8EncodeChar_of_lt (by decide), List.mem_singleton] at hmem
    subst hmem
    rfl

theorem reads_peekBehindBlanks {blanks : List Char} (hblanks : Blanks blanks) {c : Char}
    (h : IsMark c) (cs : List Char) :
    Reads (peekBehindBlanks .clean) (Utf8.ofChars (blanks ++ c :: cs)) (some (Utf8.ascii c))
      (Utf8.ofChars (c :: cs)) := by
  rw [Utf8.ofChars_append]
  refine Reads.bind (Scan.reads_takeWhile ?_ ?_) (reads_peek_of_isMark h cs)
  · intro b hb
    exact isBlank_of_mem_ofChars hblanks hb
  · intro b hb
    rw [Utf8.ofChars_cons_of_lt h.left, List.head?_cons, Option.some_inj] at hb
    subst hb
    exact h.right

theorem reads_peekBehindBlanks_end {blanks : List Char} (hblanks : Blanks blanks) :
    Reads (peekBehindBlanks .clean) (Utf8.ofChars blanks) none [] := by
  rw [← List.append_nil (Utf8.ofChars blanks)]
  refine Reads.bind (Scan.reads_takeWhile ?_ ?_) (reads_peek [])
  · intro b hb
    exact isBlank_of_mem_ofChars hblanks hb
  · intro b hb
    cases hb

end Reader

/-!
# Layouts
-/

namespace Layout

open Reader (Blanks)

def line (layout : Layout) (level : Nat) : List Char :=
  layout.lineAppend level []

def gap : Layout -> List Char
  | .compact => []
  | .pretty => [' ']

theorem lineAppend_eq (layout : Layout) (level : Nat) (rest : List Char) :
    layout.lineAppend level rest = layout.line level ++ rest := by
  cases layout with
  | compact => rfl
  | pretty => simp [line, lineAppend]

theorem colonAppend_eq (layout : Layout) (rest : List Char) :
    layout.colonAppend rest = ':' :: (layout.gap ++ rest) := by
  cases layout <;> rfl

theorem blanks_line (layout : Layout) (level : Nat) : Blanks (layout.line level) := by
  intro c hc
  cases layout with
  | compact => cases hc
  | pretty =>
      rw [line, lineAppend, List.append_nil] at hc
      cases hc with
      | head _ => exact Or.inr rfl
      | tail _ hc => exact Or.inl (List.eq_of_mem_replicate hc)

theorem blanks_gap (layout : Layout) : Blanks layout.gap := by
  intro c hc
  cases layout with
  | compact => cases hc
  | pretty => exact Or.inl (List.mem_singleton.mp hc)

end Layout
end JsonBind
