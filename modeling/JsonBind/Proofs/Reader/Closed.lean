import JsonBind.Proofs.Reader.Tree

/-!
# Properties of all readers

What readers do with the ending of their source is put together from a few
basic readers, by sequences and by loops. A property that the basic ones have,
and that sequences and loops keep, is one of every reader here, up to the whole
document.
-/

namespace JsonBind
namespace Reader

open Scan (Reads)

variable {α β γ : Type}

/-- A reader that only complains, and never about a failed read. -/
def Refuses (p : Reader α) : Prop :=
  forall input : List UInt8,
    exists found : Fault, p input = .error found ∧ found.cause.isIo = false

theorem refuses_fault {cause : Cause} (h : cause.isIo = false) (mark : Mark) :
    Refuses (fault cause mark : Reader α) := by
  intro input
  exact ⟨_, rfl, h⟩

theorem Refuses.behind {p : Reader β} {f : β -> Reader α}
    (hp : forall input : List UInt8, exists (b : β) (rest : List UInt8), Reads p input b rest)
    (hf : forall b : β, Refuses (f b)) : Refuses (p >>= f) := by
  intro input
  rcases hp input with ⟨b, rest, hread⟩
  rcases hf b rest with ⟨found, hfound, hcause⟩
  exact ⟨found, hread.bind_error hfound, hcause⟩

theorem placed_cause (ending : Ending) (bracket : Bracket) (found : Fault) :
    (placed ending bracket found).cause = found.cause := by
  unfold placed
  split
  · split
    · rfl
    · rfl
  · rfl

/-- The property `P`, of readers that know how their source ends, holds of the basic ones and is
kept by all ways to put readers together. -/
structure Closed (P : forall {α : Type}, (Ending -> Reader α) -> Prop) : Prop where
  pure : forall {α : Type} (a : α), P fun _ => (Pure.pure a : Reader α)
  refuses : forall {α : Type} {p : Ending -> Reader α},
    (forall ending : Ending, Refuses (p ending)) -> P p
  peek : P Reader.peek
  next : P Reader.next
  -- A run of bytes may go on where its source breaks off, so it comes with the look behind it.
  peekBehindBlanks : P Reader.peekBehindBlanks
  skipDigits : P Reader.skipDigits
  bind : forall {α γ : Type} {p : Ending -> Reader α} {f : Ending -> α -> Reader γ},
    P p -> (forall a : α, P fun ending => f ending a) -> P fun ending => p ending >>= f ending
  iterate : forall {σ : Type} {step : Ending -> σ -> Reader (Option σ)},
    (forall state : σ, P fun ending => step ending state) ->
      forall state : σ, P fun ending => Scan.iterate (step ending) state
  -- A fault may be told differently, if its cause stays.
  retold : forall {α : Type} {p : Ending -> Reader α} {retell : Ending -> Fault -> Fault},
    (forall (ending : Ending) (found : Fault), (retell ending found).cause = found.cause) ->
      P p -> P fun ending input => (p ending input).mapError (retell ending)

variable {P : forall {α : Type}, (Ending -> Reader α) -> Prop} (h : Closed P)

include h

theorem Closed.fault {cause : Cause} (hcause : cause.isIo = false) (mark : Mark) :
    P fun _ => (fault cause mark : Reader α) := by
  apply h.refuses
  intro ending
  exact refuses_fault hcause mark

theorem Closed.map {p : Ending -> Reader α} (hp : P p) (f : α -> γ) :
    P fun ending => f <$> p ending :=
  h.bind hp fun a => h.pure (f a)

theorem Closed.word (letters : List Char) : P fun ending => word ending letters := by
  induction letters with
  | nil => exact h.pure ()
  | cons letter letters ih =>
      apply h.bind h.next
      intro byte
      cases byte with
      | none => exact h.fault rfl _
      | some byte =>
          dsimp only
          split
          · exact ih
          · exact h.fault rfl _

/-!
# Strings
-/

theorem Closed.nextInString : P nextInString := by
  apply h.bind h.next
  intro byte
  cases byte with
  | none => exact h.fault rfl _
  | some byte => exact h.pure byte

theorem Closed.fourHexDigits : P fourHexDigits := by
  apply h.bind h.nextInString
  intro a
  apply h.bind h.nextInString
  intro b
  apply h.bind h.nextInString
  intro c
  apply h.bind h.nextInString
  intro d
  split
  · exact h.pure _
  · exact h.fault rfl _

theorem Closed.lowSurrogate (high : Nat) : P fun ending => lowSurrogate ending high := by
  apply h.bind h.nextInString
  intro backslash
  split
  · exact h.fault rfl _
  · apply h.bind h.nextInString
    intro letter
    split
    · exact h.fault rfl _
    · apply h.bind h.fourHexDigits
      intro low
      split
      · exact h.pure _
      · exact h.fault rfl _

theorem Closed.escapedCode : P escapedCode := by
  apply h.bind h.fourHexDigits
  intro unit
  split
  · exact h.fault rfl _
  · split
    · exact h.lowSurrogate unit
    · exact h.pure unit

theorem Closed.escapedChar : P escapedChar := by
  apply h.bind h.nextInString
  intro byte
  split
  case h_9 => exact h.map h.escapedCode Char.ofNat
  case h_10 => exact h.fault rfl _
  all_goals exact h.pure _

theorem Closed.piece (bytes : List UInt8) : P fun ending => piece ending bytes := by
  apply h.bind h.nextInString
  intro byte
  split
  · exact h.pure none
  · exact h.map h.escapedChar _
  · split
    · exact h.fault rfl _
    · exact h.pure _

theorem Closed.string : P string := by
  apply h.bind (h.iterate h.piece [])
  intro bytes
  dsimp only
  split
  · exact h.pure _
  · exact h.fault rfl _

/-!
# Numbers
-/

theorem Closed.peekDigit : P peekDigit :=
  h.map h.peek fun byte => byte.bind digit?

theorem Closed.digitBelow (limit : Nat) (state : Nat × Nat) :
    P fun ending => digitBelow ending limit state := by
  apply h.bind h.peekDigit
  intro digit
  cases digit with
  | none => exact h.pure none
  | some digit =>
      dsimp only
      split
      · exact h.map h.next _
      · exact h.pure none

theorem Closed.digitsBelow (limit start : Nat) :
    P fun ending => digitsBelow ending limit start :=
  h.iterate (h.digitBelow limit) (start, 0)

theorem Closed.float (x : Float) : P fun _ => float x := by
  unfold Reader.float
  split
  · exact h.pure _
  · exact h.fault rfl _

theorem Closed.double (numeral : Numeral) : P fun _ => double numeral := by
  unfold Reader.double
  split
  · exact h.fault rfl _
  · exact h.float _

theorem Closed.whole (numeral : Numeral) : P fun _ => whole numeral := by
  unfold Reader.whole
  dsimp only
  split
  · split
    · exact h.float _
    · split
      · exact h.pure _
      · exact h.float _
  · split
    · exact h.pure _
    · exact h.float _

theorem Closed.exponentSign : P exponentSign := by
  apply h.bind h.peek
  intro byte
  split
  · exact h.map h.next fun _ => false
  · exact h.map h.next fun _ => true
  · exact h.pure false

theorem Closed.exponentPart (numeral : Numeral) : P fun ending => exponentPart ending numeral := by
  apply h.bind h.exponentSign
  intro below
  apply h.bind h.next
  intro byte
  split
  · exact h.fault rfl _
  · split
    · exact h.fault rfl _
    · apply h.bind (h.digitsBelow _ _)
      intro taken
      apply h.bind h.peekDigit
      intro digit
      split
      · exact h.double _
      · apply h.bind h.next
        intro next
        split
        · exact h.fault rfl _
        · apply h.bind h.skipDigits
          intro skipped
          exact h.float _

theorem Closed.afterFraction (numeral : Numeral) :
    P fun ending => afterFraction ending numeral := by
  apply h.bind h.peek
  intro byte
  split
  · exact h.bind h.next fun _ => h.exponentPart numeral
  · exact h.bind h.next fun _ => h.exponentPart numeral
  · exact h.double numeral

theorem Closed.fraction (numeral : Numeral) : P fun ending => fraction ending numeral := by
  apply h.bind (h.digitsBelow _ _)
  intro taken
  apply h.bind h.skipDigits
  intro skipped
  split
  · apply h.bind h.peek
    intro byte
    cases byte with
    | none => exact h.fault rfl _
    | some byte => exact h.fault rfl _
  · exact h.afterFraction _

theorem Closed.afterInteger (numeral : Numeral) (skipped : Nat) :
    P fun ending => afterInteger ending numeral skipped := by
  apply h.bind h.peek
  intro byte
  split
  · exact h.bind h.next fun _ => h.fraction _
  · exact h.afterFraction _
  · exact h.afterFraction _
  · split
    · exact h.whole _
    · exact h.double _

theorem Closed.unsigned (negative : Bool) : P fun ending => unsigned ending negative := by
  apply h.bind h.next
  intro byte
  split
  · exact h.fault rfl _
  · split
    · exact h.fault rfl _
    · apply h.bind h.peekDigit
      intro digit
      split
      · exact h.fault rfl _
      · exact h.afterInteger _ _
    · apply h.bind (h.digitsBelow _ _)
      intro taken
      apply h.bind h.skipDigits
      intro skipped
      exact h.afterInteger _ _

/-!
# Containers
-/

theorem Closed.itemFollows (first : Bool) : P fun ending => itemFollows ending first := by
  apply h.bind h.peekBehindBlanks
  intro byte
  split
  · exact h.fault rfl _
  · exact h.pure false
  · split
    · exact h.pure true
    · apply h.bind h.next
      intro comma
      apply h.bind h.peekBehindBlanks
      intro ahead
      split
      · exact h.fault rfl _
      · exact h.fault rfl _
      · exact h.pure true
  · split
    · exact h.pure true
    · exact h.fault rfl _

theorem Closed.name : P name :=
  h.bind h.next fun _ => h.map h.string some

theorem Closed.nameFollows (first : Bool) : P fun ending => nameFollows ending first := by
  apply h.bind h.peekBehindBlanks
  intro byte
  split
  · exact h.fault rfl _
  · exact h.pure none
  · split
    · exact h.fault rfl _
    · apply h.bind h.next
      intro comma
      apply h.bind h.peekBehindBlanks
      intro ahead
      split
      · exact h.fault rfl _
      · exact h.fault rfl _
      · exact h.name
      · exact h.fault rfl _
  · split
    · exact h.name
    · exact h.fault rfl _
  · split
    · exact h.fault rfl _
    · exact h.fault rfl _

theorem Closed.colon : P colon := by
  apply h.bind h.peekBehindBlanks
  intro byte
  split
  · exact h.fault rfl _
  · exact h.map h.next fun _ => ()
  · exact h.fault rfl _

theorem Closed.close (bracket : Bracket) : P fun ending => close ending bracket := by
  cases bracket with
  | square =>
      apply h.bind h.peekBehindBlanks
      intro byte
      split
      · exact h.fault rfl _
      · exact h.map h.next fun _ => ()
      · -- Behind the stray comma nothing is read, whichever way the source ends.
        apply h.bind h.next
        intro comma
        apply h.refuses
        intro ending
        apply Refuses.behind fun input => ⟨_, _, _, rfl, rfl, rfl⟩
        intro blanks
        apply Refuses.behind fun input => ⟨_, _, Scan.reads_peek input⟩
        intro ahead
        split
        · exact refuses_fault rfl _
        · exact refuses_fault rfl _
      · exact h.fault rfl _
  | curly =>
      apply h.bind h.peekBehindBlanks
      intro byte
      split
      · exact h.fault rfl _
      · exact h.map h.next fun _ => ()
      · exact h.fault rfl _
      · exact h.fault rfl _

theorem Closed.enclosed {inside : Ending -> Reader α} (hinside : P inside) (bracket : Bracket) :
    P fun ending => enclosed ending bracket (inside ending) := by
  apply h.retold
  · intro ending found
    exact placed_cause ending bracket found
  · apply h.bind h.next
    intro opening
    apply h.bind hinside
    intro found
    exact h.bind (h.close bracket) fun _ => h.pure found

/-!
# Values and documents
-/

theorem Closed.scalar : P scalar := by
  apply h.bind h.peek
  intro byte
  split
  · exact h.fault rfl _
  · exact h.bind h.next fun _ => h.map (h.word _) fun _ => Value.null
  · exact h.bind h.next fun _ => h.map (h.word _) fun _ => Value.bool true
  · exact h.bind h.next fun _ => h.map (h.word _) fun _ => Value.bool false
  · exact h.bind h.next fun _ => h.map h.string Value.string
  · exact h.bind h.next fun _ => h.map (h.unsigned true) Value.number
  · split
    · exact h.map (h.unsigned false) Value.number
    · exact h.fault rfl _

theorem Closed.moreItems {item : Ending -> Reader Value} (hitem : P item) (items : List Value) :
    P fun ending => moreItems ending (item ending) items := by
  apply h.bind (h.itemFollows items.isEmpty)
  intro follows
  split
  · exact h.map hitem fun v => some (v :: items)
  · exact h.pure none

theorem Closed.moreMembers {value : Ending -> Reader Value} (hvalue : P value)
    (members : Members) : P fun ending => moreMembers ending (value ending) members := by
  apply h.bind (h.nameFollows members.isEmpty)
  intro name?
  cases name? with
  | none => exact h.pure none
  | some name =>
      exact h.bind h.colon fun _ => h.map hvalue fun v => some (members.insert name v)

theorem Closed.valueAt {value : Ending -> Reader Value} (hvalue : P value)
    (first : Option Char) :
    P fun ending => valueAt ending (Reader.moreMembers ending) (some (value ending)) first := by
  by_cases hsquare : first = some '['
  · subst hsquare
    have hitems := h.iterate (h.moreItems hvalue) []
    exact h.map (h.enclosed hitems .square) fun items => Value.array items.reverse
  · by_cases hcurly : first = some '{'
    · subst hcurly
      have hmembers := h.iterate (h.moreMembers hvalue) []
      exact h.map (h.enclosed hmembers .curly) Value.object
    · simp only [valueAt_of_ne _ _ hsquare hcurly]
      exact h.scalar

theorem Closed.valueAt_none (first : Option Char) :
    P fun ending => Reader.valueAt ending (Reader.moreMembers ending) none first := by
  by_cases hsquare : first = some '['
  · subst hsquare
    exact h.fault rfl _
  · by_cases hcurly : first = some '{'
    · subst hcurly
      exact h.fault rfl _
    · simp only [valueAt_of_ne _ _ hsquare hcurly]
      exact h.scalar

theorem Closed.value (levels : Nat) : P fun ending => value ending levels := by
  induction levels with
  | zero =>
      apply h.bind h.peekBehindBlanks
      intro byte
      exact h.valueAt_none (byte.map Char.ofUInt8)
  | succ levels ih =>
      apply h.bind h.peekBehindBlanks
      intro byte
      exact h.valueAt ih (byte.map Char.ofUInt8)

theorem Closed.document {root : Ending -> Nat -> Reader α}
    (hroot : P fun ending => root ending maxLevels) :
    P fun ending => document ending (root ending) := by
  apply h.bind hroot
  intro found
  apply h.bind h.peekBehindBlanks
  intro byte
  cases byte with
  | none => exact h.pure found
  | some byte => exact h.fault rfl _

end Reader
end JsonBind
