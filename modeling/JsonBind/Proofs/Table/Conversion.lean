import Mathlib.Data.List.Forall2
import JsonBind.Table
import JsonBind.Proofs.Outcome

/-!
# Conversion of values

What it means that the value of a column converts, and what can be objected to one
that does not. A value of the right shape does the one or has the other, and the
column is filled, or refused, accordingly.
-/

namespace JsonBind

/-!
# Items

The items of an array convert if all of them are objects that can be read.
-/

section

variable {υ κ : Type}

def ItemsConvert (read : Value -> κ -> Outcome υ) (context : κ) :
    List Value -> List υ -> Prop :=
  List.Forall₂ fun item found => item.isObject = true ∧ (read item context).result = .ok found

inductive ItemObjects (read : Value -> κ -> Outcome υ) (context : κ) (index : Nat)
    (item : Value) : Objection -> Prop where
  | otherItem : item.isObject = false -> ItemObjects read context index item (.otherItem index item)
  | nestedItem {e : Error} :
      item.isObject = true ->
      (read item context).result = .error e ->
      ItemObjects read context index item (.nestedItem index e)

variable {read : Value -> κ -> Outcome υ} {context : κ}

theorem item_converts_or_objects (read : Value -> κ -> Outcome υ) (context : κ) (index : Nat)
    (item : Value) :
    (exists found : υ, item.isObject = true ∧ (read item context).result = .ok found) ∨
      exists objection : Objection, ItemObjects read context index item objection := by
  cases hobject : item.isObject with
  | false => exact Or.inr ⟨_, .otherItem hobject⟩
  | true =>
      cases hread : (read item context).result with
      | ok found => exact Or.inl ⟨found, rfl, rfl⟩
      | error e => exact Or.inr ⟨_, .nestedItem hobject hread⟩

theorem readItems_cons_of_converts {table : String} {field : Field} {index : Nat} {item : Value}
    {rest : List Value} {found : υ} (hobject : item.isObject = true)
    (hread : (read item context).result = .ok found) :
    (readItems table field read context index (item :: rest)).result =
      (readItems table field read context (index + 1) rest).result.map (found :: ·) := by
  rw [readItems, if_pos hobject,
    Outcome.result_bind_of_ok (Outcome.result_mapError_of_ok hread _)]
  cases hrest : (readItems table field read context (index + 1) rest).result with
  | ok others => exact Outcome.result_bind_of_ok hrest
  | error e => exact Outcome.result_bind_of_error hrest

theorem readItems_cons_of_objects {table : String} {field : Field} {index : Nat} {item : Value}
    {rest : List Value} {objection : Objection}
    (h : ItemObjects read context index item objection) :
    (readItems table field read context index (item :: rest)).result =
      .error (objection.error table field) := by
  cases h with
  | otherItem hobject =>
      rw [readItems, if_neg (by simp [hobject])]
      rfl
  | nestedItem hobject hread =>
      rw [readItems, if_pos hobject]
      exact Outcome.result_bind_of_error (Outcome.result_mapError_of_error hread _)

theorem readItems_of_convert {table : String} {field : Field} {index : Nat}
    {items : List Value} {found : List υ} (h : ItemsConvert read context items found) :
    (readItems table field read context index items).result = .ok found := by
  induction h generalizing index with
  | nil => rfl
  | cons hitem _ ih =>
      rw [readItems_cons_of_converts hitem.left hitem.right, ih]
      rfl

theorem readItems_of_objects {table : String} {field : Field} {index : Nat}
    {before after : List Value} {item : Value} {found : List υ} {objection : Objection}
    (h : ItemsConvert read context before found)
    (hitem : ItemObjects read context (index + before.length) item objection) :
    (readItems table field read context index (before ++ item :: after)).result =
      .error (objection.error table field) := by
  induction h generalizing index with
  | nil => exact readItems_cons_of_objects hitem
  | cons hfirst _ ih =>
      rename_i rest others _
      rw [List.length_cons, show index + (rest.length + 1) = index + 1 + rest.length by
        omega] at hitem
      have hrest := ih hitem
      rw [List.cons_append, readItems_cons_of_converts hfirst.left hfirst.right, hrest]
      rfl

theorem items_convert_or_object (read : Value -> κ -> Outcome υ) (context : κ) (index : Nat)
    (items : List Value) :
    (exists found : List υ, ItemsConvert read context items found) ∨
      exists (before after : List Value) (item : Value) (found : List υ) (objection : Objection),
        items = before ++ item :: after ∧ ItemsConvert read context before found ∧
          ItemObjects read context (index + before.length) item objection := by
  induction items generalizing index with
  | nil => exact Or.inl ⟨[], .nil⟩
  | cons item rest ih =>
      rcases item_converts_or_objects read context index item with ⟨found, hitem⟩ | ⟨objection, h⟩
      · rcases ih (index + 1) with ⟨others, hothers⟩ |
          ⟨before, after, bad, others, objection, rfl, hbefore, hbad⟩
        · exact Or.inl ⟨found :: others, .cons hitem hothers⟩
        · refine Or.inr ⟨item :: before, after, bad, found :: others, objection, rfl,
            .cons hitem hbefore, ?_⟩
          rw [List.length_cons, show index + (before.length + 1) = index + 1 + before.length by
            omega]
          exact hbad
      · exact Or.inr ⟨[], rest, item, [], objection, rfl, .nil, h⟩

theorem result_readItems_eq_ok_iff {table : String} {field : Field} {index : Nat}
    {items : List Value} {found : List υ} :
    (readItems table field read context index items).result = .ok found <->
      ItemsConvert read context items found := by
  constructor
  · intro hread
    rcases items_convert_or_object read context index items with ⟨others, hitems⟩ |
      ⟨before, after, item, others, objection, rfl, hbefore, hitem⟩
    · rw [readItems_of_convert hitems] at hread
      cases hread
      exact hitems
    · rw [readItems_of_objects hbefore hitem] at hread
      cases hread
  · exact readItems_of_convert

theorem result_readItems_eq_error_iff {table : String} {field : Field} {index : Nat}
    {items : List Value} {e : Error} :
    (readItems table field read context index items).result = .error e <->
      exists (before after : List Value) (item : Value) (found : List υ) (objection : Objection),
        items = before ++ item :: after ∧ ItemsConvert read context before found ∧
          ItemObjects read context (index + before.length) item objection ∧
            e = objection.error table field := by
  constructor
  · intro hread
    rcases items_convert_or_object read context index items with ⟨others, hitems⟩ |
      ⟨before, after, item, others, objection, rfl, hbefore, hitem⟩
    · rw [readItems_of_convert hitems] at hread
      cases hread
    · rw [readItems_of_objects hbefore hitem] at hread
      cases hread
      exact ⟨before, after, item, others, objection, rfl, hbefore, hitem, rfl⟩
  · intro h
    rcases h with ⟨before, after, item, found, objection, rfl, hbefore, hitem, rfl⟩
    exact readItems_of_objects hbefore hitem

end

theorem Value.long?_long (n : Int64) : (Value.long n).long? = some n := by
  have hbound : n.toInt < 0x8000000000000000 := n.toInt_lt
  change (if n.toInt < 0x8000000000000000 then some (Int64.ofInt n.toInt) else none) = some n
  rw [if_pos hbound, Int64.ofInt_toInt]

/-!
# Columns

What a value converts to is put into what is being built by the setter of its
column; so a conversion is a change of what is being built.
-/

namespace Binding

variable {τ κ : Type}

inductive Converts (context : κ) : Binding τ κ -> Value -> (τ -> τ) -> Prop where
  | string (set : τ -> String -> τ) (text : String) :
      Converts context (.string set) (.string text) (set · text)
  | long (set : τ -> Int64 -> τ) {value : Value} {n : Int64} :
      value.long? = some n ->
      Converts context (.long set) value (set · n)
  | boolean (set : τ -> Bool -> τ) {value : Value} {flag : Bool} :
      value.boolean? = some flag ->
      Converts context (.boolean set) value (set · flag)
  | object {υ : Type} {read : Value -> κ -> Outcome υ} (set : τ -> υ -> τ) {value : Value}
      {found : υ} :
      (read value context).result = .ok found ->
      Converts context (.object read set) value (set · found)
  | objectArray {υ : Type} {read : Value -> κ -> Outcome υ} (set : τ -> List υ -> τ)
      {items : List Value} {found : List υ} :
      ItemsConvert read context items found ->
      Converts context (.objectArray read set) (.array items) (set · found)

/-- What is wrong with a value of the right shape that does not convert. Of the items of an array,
the first one counts with which something is wrong. -/
inductive Objects (context : κ) : Binding τ κ -> Value -> Objection -> Prop where
  | long (set : τ -> Int64 -> τ) {value : Value} :
      value.long? = none ->
      Objects context (.long set) value (.notLong value)
  | boolean (set : τ -> Bool -> τ) {value : Value} :
      value.boolean? = none ->
      Objects context (.boolean set) value (.notBoolean value)
  | object {υ : Type} {read : Value -> κ -> Outcome υ} (set : τ -> υ -> τ) {value : Value}
      {e : Error} :
      (read value context).result = .error e ->
      Objects context (.object read set) value (.nested e)
  | objectArray {υ : Type} {read : Value -> κ -> Outcome υ} (set : τ -> List υ -> τ)
      {before after : List Value} {item : Value} {found : List υ} {objection : Objection} :
      ItemsConvert read context before found ->
      ItemObjects read context before.length item objection ->
      Objects context (.objectArray read set) (.array (before ++ item :: after)) objection

theorem converts_or_objects (context : κ) {binding : Binding τ κ} {value : Value}
    (h : binding.shape.accepts value = true) :
    (exists set : τ -> τ, binding.Converts context value set) ∨
      exists objection : Objection, binding.Objects context value objection := by
  cases binding with
  | string set =>
      cases value with
      | string text => exact Or.inl ⟨_, .string set text⟩
      | _ => cases h
  | long set =>
      cases hlong : value.long? with
      | some n => exact Or.inl ⟨_, .long set hlong⟩
      | none => exact Or.inr ⟨_, .long set hlong⟩
  | boolean set =>
      cases hboolean : value.boolean? with
      | some flag => exact Or.inl ⟨_, .boolean set hboolean⟩
      | none => exact Or.inr ⟨_, .boolean set hboolean⟩
  | object read set =>
      cases hread : (read value context).result with
      | ok found => exact Or.inl ⟨_, .object set hread⟩
      | error e => exact Or.inr ⟨_, .object set hread⟩
  | objectArray read set =>
      cases value with
      | array items =>
          rcases items_convert_or_object read context 0 items with ⟨found, hitems⟩ |
            ⟨before, after, item, found, objection, rfl, hbefore, hitem⟩
          · exact Or.inl ⟨_, .objectArray set hitems⟩
          · rw [Nat.zero_add] at hitem
            exact Or.inr ⟨objection, .objectArray set hbefore hitem⟩
      | _ => cases h

end Binding

namespace Column

variable {τ κ : Type}

theorem fill_of_converts {column : Column τ κ} {context : κ} {value : Value} {set : τ -> τ}
    (h : column.binding.Converts context value set) (table : String) (target : τ) :
    (column.fill table context target value).result = .ok (set target) := by
  rcases column with ⟨field, binding⟩
  cases h with
  | string set text => rfl
  | long set hlong =>
      unfold fill
      simp only [hlong]
      rfl
  | boolean set hboolean =>
      unfold fill
      simp only [hboolean]
      rfl
  | object set hread =>
      exact Outcome.result_bind_of_ok (Outcome.result_mapError_of_ok hread _)
  | objectArray set hitems =>
      exact Outcome.result_bind_of_ok (readItems_of_convert hitems)

theorem fill_of_objects {column : Column τ κ} {context : κ} {value : Value}
    {objection : Objection} (h : column.binding.Objects context value objection)
    (table : String) (target : τ) :
    (column.fill table context target value).result =
      .error (objection.error table column.field) := by
  rcases column with ⟨field, binding⟩
  cases h with
  | long set hlong =>
      unfold fill
      simp only [hlong]
      rfl
  | boolean set hboolean =>
      unfold fill
      simp only [hboolean]
      rfl
  | object set hread =>
      exact Outcome.result_bind_of_error (Outcome.result_mapError_of_error hread _)
  | objectArray set hbefore hitem =>
      rw [← Nat.zero_add (List.length _)] at hitem
      exact Outcome.result_bind_of_error (readItems_of_objects hbefore hitem)

end Column
end JsonBind
