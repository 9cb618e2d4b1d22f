import Mathlib.Data.List.Forall2
import JsonBind.Text.Json
import JsonBind.Value.Text

/-!
# Parts beside trees

A part writes a value if it is the compact text of the value, at whatever level that
stands and whatever comes behind it. Containers of parts write the containers of what
their parts write.
-/

namespace JsonBind
namespace Text

def Writes (part : Part) (v : Value) : Prop :=
  forall (level : Nat) (rest : List Char), part rest = v.textAppend .compact level rest

def WritesMember (part : Part) (member : String × Value) : Prop :=
  exists value : Part, part = namedPart member.1 value ∧ Writes value member.2

theorem Writes.text {part : Part} {v : Value} (h : Writes part v) :
    String.ofList (part []) = v.text .compact := by
  rw [h 0 []]
  rfl

theorem writes_string (text : String) : Writes (stringAppend text) (.string text) := by
  intro level rest
  rw [Value.textAppend]

theorem separated_cons_of_writes {part : Part} {parts : List Part} {items : List Value}
    (h : List.Forall₂ Writes parts items) (level : Nat) (rest : List Char) :
    separated (part :: parts) rest = part (Value.itemsAppend .compact level items rest) := by
  induction h generalizing part with
  | nil => rfl
  | cons hfirst _ ih =>
      rw [separated, ih, hfirst level, Value.itemsAppend]
      rfl

theorem writes_array {parts : List Part} {items : List Value}
    (h : List.Forall₂ Writes parts items) : Writes (arrayPart parts) (.array items) := by
  intro level rest
  cases h with
  | nil =>
      rw [Value.textAppend]
      rfl
  | cons hfirst hmore =>
      rw [arrayPart, separated_cons_of_writes hmore (level + 1), hfirst (level + 1),
        Value.textAppend]
      rfl

theorem separated_cons_of_writesMember {part : Part} {parts : List Part} {members : Members}
    (h : List.Forall₂ WritesMember parts members) (level : Nat) (rest : List Char) :
    separated (part :: parts) rest = part (Value.membersAppend .compact level members rest) := by
  induction h generalizing part with
  | nil => rfl
  | cons hfirst _ ih =>
      rcases hfirst with ⟨value, rfl, hvalue⟩
      rw [separated, ih, namedPart, hvalue level, Value.membersAppend]
      rfl

theorem writes_object {parts : List Part} {members : Members}
    (h : List.Forall₂ WritesMember parts members) :
    Writes (objectPart parts) (.object members) := by
  intro level rest
  cases h with
  | nil =>
      rw [Value.textAppend]
      rfl
  | cons hfirst hmore =>
      rcases hfirst with ⟨value, rfl, hvalue⟩
      rw [objectPart, separated_cons_of_writesMember hmore (level + 1), namedPart,
        hvalue (level + 1), Value.textAppend]
      rfl

end Text
end JsonBind
