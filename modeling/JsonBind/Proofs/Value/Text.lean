import JsonBind.Value.Text

/-!
# What stands behind a text

The text of a value does not depend on what stands behind it: more of that only
comes behind the whole.
-/

namespace JsonBind

theorem Text.escapedAppend_append (cs rest tail : List Char) :
    escapedAppend cs (rest ++ tail) = escapedAppend cs rest ++ tail := by
  induction cs with
  | nil => rfl
  | cons c cs ih => rw [escapedAppend, escapedAppend, ih, List.append_assoc]

theorem Text.stringAppend_append (text : String) (rest tail : List Char) :
    stringAppend text (rest ++ tail) = stringAppend text rest ++ tail := by
  rw [stringAppend, stringAppend, ← List.cons_append, escapedAppend_append]
  rfl

theorem Number.textAppend_append (n : Number) (rest tail : List Char) :
    n.textAppend (rest ++ tail) = n.textAppend rest ++ tail := by
  cases n with
  | int n bounds => rw [textAppend, textAppend, List.append_assoc]
  | float x finite => rw [textAppend, textAppend, List.append_assoc]

namespace Layout

theorem lineAppend_append (layout : Layout) (level : Nat) (rest tail : List Char) :
    layout.lineAppend level (rest ++ tail) = layout.lineAppend level rest ++ tail := by
  cases layout with
  | compact => rfl
  | pretty => simp [lineAppend]

theorem colonAppend_append (layout : Layout) (rest tail : List Char) :
    layout.colonAppend (rest ++ tail) = layout.colonAppend rest ++ tail := by
  cases layout <;> rfl

end Layout

namespace Value

mutual

theorem textAppend_append (layout : Layout) :
    forall (v : Value) (level : Nat) (rest tail : List Char),
      v.textAppend layout level (rest ++ tail) = v.textAppend layout level rest ++ tail
  | .null, level, rest, tail => by simp [textAppend]
  | .bool true, level, rest, tail => by simp [textAppend]
  | .bool false, level, rest, tail => by simp [textAppend]
  | .number n, level, rest, tail => by
      rw [textAppend, textAppend, Number.textAppend_append]
  | .string text, level, rest, tail => by
      rw [textAppend, textAppend, Text.stringAppend_append]
  | .array [], level, rest, tail => by simp [textAppend]
  | .array (item :: items), level, rest, tail => by
      rw [textAppend, textAppend, ← List.cons_append, Layout.lineAppend_append,
        itemsAppend_append layout items, textAppend_append layout item, Layout.lineAppend_append]
      rfl
  | .object [], level, rest, tail => by simp [textAppend]
  | .object ((name, value) :: members), level, rest, tail => by
      rw [textAppend, textAppend, ← List.cons_append, Layout.lineAppend_append,
        membersAppend_append layout members, textAppend_append layout value,
        Layout.colonAppend_append, Text.stringAppend_append, Layout.lineAppend_append]
      rfl

theorem itemsAppend_append (layout : Layout) :
    forall (items : List Value) (level : Nat) (rest tail : List Char),
      itemsAppend layout level items (rest ++ tail) = itemsAppend layout level items rest ++ tail
  | [], level, rest, tail => by simp [itemsAppend]
  | item :: items, level, rest, tail => by
      rw [itemsAppend, itemsAppend, itemsAppend_append layout items, textAppend_append layout item,
        Layout.lineAppend_append]
      rfl

theorem membersAppend_append (layout : Layout) :
    forall (members : Members) (level : Nat) (rest tail : List Char),
      membersAppend layout level members (rest ++ tail) =
        membersAppend layout level members rest ++ tail
  | [], level, rest, tail => by simp [membersAppend]
  | (name, value) :: members, level, rest, tail => by
      rw [membersAppend, membersAppend, membersAppend_append layout members,
        textAppend_append layout value, Layout.colonAppend_append, Text.stringAppend_append,
        Layout.lineAppend_append]
      rfl

end

end Value
end JsonBind
