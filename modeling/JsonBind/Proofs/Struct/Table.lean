import Mathlib.Data.List.Forall2
import JsonBind.Proofs.Struct.Slot
import JsonBind.Proofs.Table.Reading

/-!
# Tables beside record types

A strict table and a record type may describe the same objects, column by column and
slot by slot. Then both read the same objects to the same records, up to values that
the columns do not take although the slots do.
-/

namespace JsonBind

variable {σ υ κ : Type}

/-!
# Members of a strict table
-/

namespace Table

variable {table : Table σ κ}

theorem fillAll_cons_eq_ok_iff (hstrict : table.lenient = false) {context : κ}
    {filled : List table.Index} {target result : σ} {key : String} {v : Value} {rest : Members} :
    (table.fillAll context filled target ((key, v) :: rest)).result = .ok result <->
      exists (slot : table.Index) (set : σ -> σ), table.find? key = some slot ∧ slot ∉ filled ∧
        ((table.columns.get slot).binding.shape.accepts v = true ∧
          (table.columns.get slot).binding.Converts context v set) ∧
          (table.fillAll context (slot :: filled) (set target) rest).result = .ok result := by
  constructor
  · intro h
    cases hfind : table.find? key with
    | none =>
        rw [fillAll_cons_of_unknown (find?_eq_none_iff.mp hfind), if_neg (by simp [hstrict])] at h
        cases h
    | some slot =>
        by_cases hmem : slot ∈ filled
        · rw [fillAll_cons_of_find? hfind, fillColumn_of_mem hmem] at h
          cases h
        · cases hshape : (table.columns.get slot).binding.shape.accepts v with
          | false =>
              rw [fillAll_cons_of_find? hfind, fillColumn_of_otherShape hmem hshape] at h
              cases h
          | true =>
              rcases Binding.converts_or_objects context hshape with ⟨set, hset⟩ | ⟨objection, hobj⟩
              · rw [fillAll_cons_of_converts hfind hmem hshape hset] at h
                exact ⟨slot, set, rfl, hmem, ⟨hshape, hset⟩, h⟩
              · have hfill := Column.fill_of_objects hobj table.name target
                rw [fillAll_cons_of_find? hfind, fillColumn_of_accepts hmem hshape,
                  Outcome.result_bind_of_error hfill] at h
                cases h
  · rintro ⟨slot, set, hfind, hfresh, ⟨hshape, hset⟩, hrest⟩
    rw [fillAll_cons_of_converts hfind hfresh hshape hset]
    exact hrest

end Table

/-!
# Columns beside slots
-/

/-- The column and the slot have the same spellings. Of the values that fill the slot the column
takes those that are admitted under their key, and makes the same change with them. -/
structure Column.Mirrors (context : κ) (admits : String -> Value -> Prop) (column : Column σ κ)
    (slot : Slot σ) : Prop where
  spellings : forall key : String, key ∈ column.field.spellings <-> key ∈ slot.spellings
  converts : forall (key : String) (v : Value) (set : σ -> σ), key ∈ slot.spellings ->
    (column.binding.shape.accepts v = true ∧ column.binding.Converts context v set <->
      admits key v ∧ slot.ofTree v = .ok set)

structure Table.Mirrors (table : Table σ κ) (context : κ) (admits : String -> Value -> Prop)
    (struct : Struct σ) : Prop where
  strict : table.lenient = false
  empty : table.empty = struct.empty
  columns : List.Forall₂ (Column.Mirrors context admits) table.columns struct.slots

theorem Column.Mirrors.accepts_eq {context : κ} {admits : String -> Value -> Prop}
    {column : Column σ κ} {slot : Slot σ} (h : Column.Mirrors context admits column slot)
    (key : String) : column.field.accepts key = slot.spellings.contains key := by
  rw [Bool.eq_iff_iff, Field.accepts_iff, List.contains_iff_mem]
  exact h.spellings key

theorem findIdx?_eq_of_mirrors {context : κ} {admits : String -> Value -> Prop}
    {columns : List (Column σ κ)} {slots : List (Slot σ)}
    (h : List.Forall₂ (Column.Mirrors context admits) columns slots) (key : String) :
    columns.findIdx? (fun column => column.field.accepts key) =
      slots.findIdx? (fun slot => slot.spellings.contains key) := by
  induction h with
  | nil => rfl
  | cons hfirst _ ih => rw [List.findIdx?_cons, List.findIdx?_cons, hfirst.accepts_eq, ih]

section

variable {context : κ} {admits : String -> Value -> Prop} {field : Field} {name : String}
  {spellings : List String}
  (hspellings : forall key : String, key ∈ field.spellings <-> key ∈ spellings)

include hspellings

theorem Column.mirrors_long (hadmits : forall (key : String) (v : Value), admits key v)
    (get : σ -> Option Int64) (set : Int64 -> σ -> σ) :
    Column.Mirrors context admits ⟨field, .long fun target n => set n target⟩
      (Slot.long name spellings get set) where
  spellings := hspellings
  converts := by
    intro key v change _
    rw [Slot.ofTree_long_eq_ok_iff]
    constructor
    · rintro ⟨_, hconverts⟩
      cases hconverts with
      | long _ hlong => exact ⟨hadmits key v, _, hlong, rfl⟩
    · rintro ⟨_, n, hlong, rfl⟩
      refine ⟨?_, .long _ hlong⟩
      cases v with
      | number m => rfl
      | string text => rfl
      | _ => cases hlong

theorem Column.mirrors_string (hadmits : forall (key : String) (v : Value), admits key v)
    (get : σ -> Option String) (set : String -> σ -> σ) :
    Column.Mirrors context admits ⟨field, .string fun target text => set text target⟩
      (Slot.string name spellings get set) where
  spellings := hspellings
  converts := by
    intro key v change _
    rw [Slot.ofTree_string_eq_ok_iff]
    constructor
    · rintro ⟨_, hconverts⟩
      cases hconverts with
      | string _ text => exact ⟨hadmits key _, text, rfl, rfl⟩
    · rintro ⟨_, text, rfl, rfl⟩
      exact ⟨rfl, .string _ text⟩

omit hspellings in
theorem Struct.isObject_of_ofTree {struct : Struct υ} {v : Value} {found : υ}
    (h : struct.ofTree v = .ok found) (hflat : forall items : List Value, v ≠ .array items) :
    v.isObject = true := by
  cases v with
  | object members => rfl
  | array items => exact absurd rfl (hflat items)
  | _ => cases h

omit hspellings in
theorem Struct.itemsConvert_iff {struct : Struct υ} {read : Value -> κ -> Outcome υ}
    (hread : forall (item : Value) (found : υ), (read item context).result = .ok found <->
      item.isObject = true ∧ struct.ofTree item = .ok found)
    {items : List Value} {records : List υ} :
    ItemsConvert read context items records <->
      (forall inner : List Value, .array inner ∉ items) ∧
        List.Forall₂ (fun item record => struct.ofTree item = .ok record) items records := by
  unfold ItemsConvert
  constructor
  · intro h
    constructor
    · intro inner hmem
      have hobject := ((List.forall₂_and_left items records).mp h).left _ hmem
      cases hobject
    · exact h.imp fun item record hitem => ((hread item record).mp hitem.right).right
  · rintro ⟨hflat, hitems⟩
    induction hitems with
    | nil => exact .nil
    | cons hfirst _ ih =>
        rename_i item record rest _ _
        have hobject := isObject_of_ofTree hfirst fun inner heq =>
          hflat inner (heq ▸ List.mem_cons_self)
        refine .cons ⟨hobject, (hread item record).mpr ⟨hobject, hfirst⟩⟩ (ih ?_)
        intro inner hmem
        exact hflat inner (List.mem_cons_of_mem item hmem)

theorem Column.mirrors_list {struct : Struct υ} {read : Value -> κ -> Outcome υ}
    (hread : forall (item : Value) (found : υ), (read item context).result = .ok found <->
      item.isObject = true ∧ struct.ofTree item = .ok found)
    (hadmits : forall (key : String) (items : List Value), key ∈ spellings ->
      (admits key (.array items) <-> forall inner : List Value, .array inner ∉ items))
    (get : σ -> Option (List υ)) (set : List υ -> σ -> σ) :
    Column.Mirrors context admits ⟨field, .objectArray read fun target found => set found target⟩
      (Slot.list struct name spellings get set) where
  spellings := hspellings
  converts := by
    intro key v change hkey
    rw [Slot.ofTree_list_eq_ok_iff]
    constructor
    · rintro ⟨_, hconverts⟩
      cases hconverts with
      | objectArray _ hitems =>
          rcases (Struct.itemsConvert_iff hread).mp hitems with ⟨hflat, hrecords⟩
          exact ⟨(hadmits key _ hkey).mpr hflat, _, _, rfl, hrecords, rfl⟩
    · rintro ⟨hadmitted, items, records, rfl, hrecords, rfl⟩
      have hflat := (hadmits key items hkey).mp hadmitted
      exact ⟨rfl, .objectArray _ ((Struct.itemsConvert_iff hread).mpr ⟨hflat, hrecords⟩)⟩

end

/-!
# Whole objects
-/

namespace Table.Mirrors

variable {table : Table σ κ} {context : κ} {admits : String -> Value -> Prop}
  {struct : Struct σ}

theorem find?_map_val (h : table.Mirrors context admits struct) (key : String) :
    (table.find? key).map (·.val) = (struct.slot? key).map (·.val) := by
  rw [find?, Struct.slot?, ← List.findIdx?_eq_map_findFinIdx?_val,
    ← List.findIdx?_eq_map_findFinIdx?_val]
  exact findIdx?_eq_of_mirrors h.columns key

theorem exists_column (h : table.Mirrors context admits struct) {key : String}
    {slot : struct.Index} (hfind : struct.slot? key = some slot) :
    exists column : table.Index, table.find? key = some column ∧ column.val = slot.val := by
  have hval := h.find?_map_val key
  rw [hfind, Option.map_some] at hval
  exact Option.map_eq_some_iff.mp hval

theorem exists_slot (h : table.Mirrors context admits struct) {key : String}
    {column : table.Index} (hfind : table.find? key = some column) :
    exists slot : struct.Index, struct.slot? key = some slot ∧ column.val = slot.val := by
  have hval := h.find?_map_val key
  rw [hfind, Option.map_some] at hval
  rcases Option.map_eq_some_iff.mp hval.symm with ⟨slot, hslot, heq⟩
  exact ⟨slot, hslot, heq.symm⟩

theorem get (h : table.Mirrors context admits struct) {column : table.Index}
    {slot : struct.Index} (heq : column.val = slot.val) :
    Column.Mirrors context admits (table.columns.get column) (struct.slots.get slot) := by
  rcases column with ⟨i, hcolumn⟩
  rcases slot with ⟨j, hslot⟩
  cases heq
  exact h.columns.get hcolumn hslot

theorem mem_of_map_val {m n : Nat} {xs : List (Fin m)} {ys : List (Fin n)}
    (h : xs.map (·.val) = ys.map (·.val)) {x : Fin m} {y : Fin n} (heq : x.val = y.val)
    (hmem : x ∈ xs) : y ∈ ys := by
  have hval : x.val ∈ ys.map (·.val) := by
    rw [← h]
    exact List.mem_map_of_mem hmem
  rcases List.mem_map.mp hval with ⟨other, hother, hsame⟩
  rw [← Fin.ext (hsame.trans heq)]
  exact hother

theorem fillAll_eq_ok_iff (h : table.Mirrors context admits struct) {members : Members}
    {columns : List table.Index} {slots : List struct.Index}
    (hfilled : columns.map (·.val) = slots.map (·.val)) {record result : σ} :
    (table.fillAll context columns record members).result = .ok result <->
      (forall member : String × Value, member ∈ members -> admits member.1 member.2) ∧
        struct.ofMembers slots record members = .ok result := by
  induction members generalizing columns slots record with
  | nil =>
      have hnone : forall member : String × Value, member ∈ [] -> admits member.1 member.2 := by
        intro member hmem
        cases hmem
      rw [fillAll, Struct.ofMembers]
      constructor
      · intro hresult
        cases hresult
        exact ⟨hnone, rfl⟩
      · rintro ⟨_, hresult⟩
        cases hresult
        rfl
  | cons member rest ih =>
      rcases member with ⟨key, v⟩
      rw [fillAll_cons_eq_ok_iff h.strict, Struct.ofMembers_cons_eq_ok_iff]
      constructor
      · rintro ⟨column, set, hfind, hfresh, htakes, hrest⟩
        rcases h.exists_slot hfind with ⟨slot, hslot, heq⟩
        have hkey := Struct.mem_spellings_of_slot? hslot
        rcases ((h.get heq).converts key v set hkey).mp htakes with ⟨hadmits, hset⟩
        have hlonger : (column :: columns).map (·.val) = (slot :: slots).map (·.val) := by
          simp [heq, hfilled]
        rcases (ih hlonger).mp hrest with ⟨hall, hmembers⟩
        constructor
        · intro member hmem
          cases hmem with
          | head _ => exact hadmits
          | tail _ hmem => exact hall member hmem
        · exact ⟨slot, set, hslot, fun hmem => hfresh (mem_of_map_val hfilled.symm heq.symm hmem),
            hset, hmembers⟩
      · rintro ⟨hall, slot, set, hslot, hfresh, hset, hmembers⟩
        rcases h.exists_column hslot with ⟨column, hfind, heq⟩
        have hkey := Struct.mem_spellings_of_slot? hslot
        have hadmits := hall (key, v) List.mem_cons_self
        have htakes := ((h.get heq).converts key v set hkey).mpr ⟨hadmits, hset⟩
        have hlonger : (column :: columns).map (·.val) = (slot :: slots).map (·.val) := by
          simp [heq, hfilled]
        have hrest := (ih hlonger).mpr
          ⟨fun other hother => hall other (List.mem_cons_of_mem (key, v) hother), hmembers⟩
        exact ⟨column, set, hfind, fun hmem => hfresh (mem_of_map_val hfilled heq hmem), htakes,
          hrest⟩

/-- A mirrored table reads the objects that the record type reads, if all of their values are
admitted. -/
theorem result_read_eq_ok_iff (h : table.Mirrors context admits struct) {v : Value} {result : σ} :
    (table.read v context).result = .ok result <->
      exists members : Members, v = .object members ∧
        (forall member : String × Value, member ∈ members -> admits member.1 member.2) ∧
          struct.ofTree v = .ok result := by
  constructor
  · intro hresult
    rcases isObject_of_result_read hresult with ⟨members, rfl⟩
    rw [result_read_object, h.empty] at hresult
    exact ⟨members, rfl, (h.fillAll_eq_ok_iff rfl).mp hresult⟩
  · rintro ⟨members, rfl, hadmits, hstruct⟩
    rw [result_read_object, h.empty]
    exact (h.fillAll_eq_ok_iff rfl).mpr ⟨hadmits, hstruct⟩

end Table.Mirrors
end JsonBind
