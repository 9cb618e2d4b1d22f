import JsonBind.Proofs.Except
import JsonBind.Proofs.Table.Conversion
import JsonBind.Proofs.Value.Depth
import JsonBind.Struct

/-!
# What fills slots

Which values fill the slots for longs, strings and lists of records, and with what. It
is the same that a table converts the values of its columns to. From the slots it follows
which members and items a record type takes, and how deep they are nested.
-/

namespace JsonBind

variable {σ υ κ : Type}

namespace Slot

theorem longOf_eq_ok_iff {v : Value} {n : Int64} : longOf v = .ok n <-> v.long? = some n := by
  cases v with
  | number m =>
      cases hlong : m.long? <;> simp [longOf, Value.long?, hlong]
  | string text =>
      cases hlong : Text.long? text <;> simp [longOf, Value.long?, hlong]
  | _ => simp [longOf, Value.long?]

theorem stringOf_eq_ok_iff {v : Value} {text : String} :
    stringOf v = .ok text <-> v = .string text := by
  cases v <;> simp [stringOf]

theorem ofTree_long_eq_ok_iff {name : String} {spellings : List String}
    {get : σ -> Option Int64} {set : Int64 -> σ -> σ} {v : Value} {change : σ -> σ} :
    (long name spellings get set).ofTree v = .ok change <->
      exists n : Int64, v.long? = some n ∧ set n = change := by
  show (longOf v).map set = .ok change <-> _
  simp only [map_eq_ok_iff, longOf_eq_ok_iff]

theorem ofTree_string_eq_ok_iff {name : String} {spellings : List String}
    {get : σ -> Option String} {set : String -> σ -> σ} {v : Value} {change : σ -> σ} :
    (string name spellings get set).ofTree v = .ok change <->
      exists text : String, v = .string text ∧ set text = change := by
  show (stringOf v).map set = .ok change <-> _
  simp only [map_eq_ok_iff, stringOf_eq_ok_iff]

end Slot

theorem Struct.listOf_eq_ok_iff {struct : Struct υ} {v : Value} {records : List υ} :
    struct.listOf v = .ok records <->
      exists items : List Value, v = .array items ∧
        List.Forall₂ (fun item record => struct.ofTree item = .ok record) items records := by
  cases v with
  | array items => simp [listOf, mapM_eq_ok_iff]
  | _ => simp [listOf]

theorem Slot.ofTree_list_eq_ok_iff {struct : Struct υ} {name : String} {spellings : List String}
    {get : σ -> Option (List υ)} {set : List υ -> σ -> σ} {v : Value} {change : σ -> σ} :
    (Slot.list struct name spellings get set).ofTree v = .ok change <->
      exists (items : List Value) (records : List υ), v = .array items ∧
        List.Forall₂ (fun item record => struct.ofTree item = .ok record) items records ∧
          set records = change := by
  show (struct.listOf v).map set = .ok change <-> _
  simp only [map_eq_ok_iff, Struct.listOf_eq_ok_iff]
  constructor
  · rintro ⟨records, ⟨items, hv, hitems⟩, hset⟩
    exact ⟨items, records, hv, hitems, hset⟩
  · rintro ⟨items, records, hv, hitems, hset⟩
    exact ⟨records, ⟨items, hv, hitems⟩, hset⟩

/-!
# Members of a record type

A record type takes the members of an object in order. A member is taken if it is found in
a slot that has not been filled, and if its value fills the slot.
-/

namespace Struct

variable {struct : Struct σ}

theorem open?_eq_ok_iff {filled : List struct.Index} {key : String} {slot : struct.Index} :
    struct.open? filled key = .ok slot <-> struct.slot? key = some slot ∧ slot ∉ filled := by
  unfold open?
  cases hfind : struct.slot? key with
  | none => simp
  | some found =>
      by_cases hmem : found ∈ filled
      · simp only [if_pos hmem]
        constructor
        · intro h
          cases h
        · rintro ⟨heq, hfresh⟩
          cases heq
          exact absurd hmem hfresh
      · simp only [if_neg hmem]
        constructor
        · intro h
          cases h
          exact ⟨rfl, hmem⟩
        · rintro ⟨heq, _⟩
          cases heq
          rfl

theorem mem_spellings_of_slot? {key : String} {slot : struct.Index}
    (h : struct.slot? key = some slot) : key ∈ (struct.slots.get slot).spellings := by
  rw [slot?, List.findFinIdx?_eq_some_iff] at h
  exact List.contains_iff_mem.mp h.left

theorem ofMembers_cons_eq_ok_iff {filled : List struct.Index} {record result : σ} {key : String}
    {v : Value} {rest : Members} :
    struct.ofMembers filled record ((key, v) :: rest) = .ok result <->
      exists (slot : struct.Index) (set : σ -> σ), struct.slot? key = some slot ∧ slot ∉ filled ∧
        (struct.slots.get slot).ofTree v = .ok set ∧
          struct.ofMembers (slot :: filled) (set record) rest = .ok result := by
  rw [ofMembers]
  simp only [bind_eq_ok_iff, open?_eq_ok_iff]
  constructor
  · intro h
    rcases h with ⟨slot, ⟨hfind, hfresh⟩, set, hset, hrest⟩
    exact ⟨slot, set, hfind, hfresh, hset, hrest⟩
  · intro h
    rcases h with ⟨slot, set, hfind, hfresh, hset, hrest⟩
    exact ⟨slot, ⟨hfind, hfresh⟩, set, hset, hrest⟩

theorem ofItems_cons_eq_ok_iff {length : Nat} {slot : Slot σ} {slots : List (Slot σ)} {item : Value}
    {items : List Value} {record result : σ} :
    ofItems length (slot :: slots) (item :: items) record = .ok result <->
      exists set : σ -> σ, slot.ofTree item = .ok set ∧
        ofItems length slots items (set record) = .ok result := by
  rw [ofItems]
  exact bind_eq_ok_iff

end Struct

/-!
# Depth

What fills a slot is not nested deeply, and so no record is.
-/

def Slot.Within (depth : Nat) (slot : Slot σ) : Prop :=
  forall (v : Value) (set : σ -> σ), slot.ofTree v = .ok set -> v.depth ≤ depth

namespace Struct

variable {struct : Struct σ} {depth : Nat}

theorem depth_le_of_ofMembers (h : forall slot : Slot σ, slot ∈ struct.slots -> slot.Within depth)
    {filled : List struct.Index} {record result : σ} {members : Members}
    (hresult : struct.ofMembers filled record members = .ok result) :
    forall child : Value, child ∈ (Value.object members).children -> child.depth ≤ depth := by
  induction members generalizing filled record with
  | nil =>
      intro child hmem
      cases hmem
  | cons member members ih =>
      rcases ofMembers_cons_eq_ok_iff.mp hresult with ⟨slot, set, _, _, hset, hrest⟩
      intro child hmem
      rcases List.mem_cons.mp hmem with rfl | hmem
      · exact h _ (List.get_mem _ _) _ set hset
      · exact ih hrest child hmem

theorem depth_le_of_ofItems {length : Nat} {slots : List (Slot σ)}
    (h : forall slot : Slot σ, slot ∈ slots -> slot.Within depth) {items : List Value}
    {record result : σ} (hresult : ofItems length slots items record = .ok result) :
    forall item : Value, item ∈ items -> item.depth ≤ depth := by
  induction slots generalizing items record with
  | nil =>
      cases items with
      | nil =>
          intro item hmem
          cases hmem
      | cons item items => cases hresult
  | cons slot slots ih =>
      cases items with
      | nil =>
          intro item hmem
          cases hmem
      | cons item items =>
          rcases ofItems_cons_eq_ok_iff.mp hresult with ⟨set, hset, hrest⟩
          intro other hmem
          rcases List.mem_cons.mp hmem with rfl | hmem
          · exact h slot List.mem_cons_self _ set hset
          · exact ih (fun slot' hslot => h slot' (List.mem_cons_of_mem slot hslot)) hrest other hmem

theorem depth_le_of_ofTree (h : forall slot : Slot σ, slot ∈ struct.slots -> slot.Within depth)
    {v : Value} {record : σ} (hrecord : struct.ofTree v = .ok record) : v.depth ≤ depth + 1 := by
  cases v with
  | array items =>
      rw [Value.depth_of_isContainer rfl]
      exact Nat.succ_le_succ (Value.itemsDepth_le (depth_le_of_ofItems h hrecord))
  | object members =>
      rw [Value.depth_of_isContainer rfl]
      exact Nat.succ_le_succ (Value.itemsDepth_le (depth_le_of_ofMembers h hrecord))
  | _ => cases hrecord

end Struct

namespace Slot

theorem within_long (name : String) (spellings : List String) (get : σ -> Option Int64)
    (set : Int64 -> σ -> σ) : (long name spellings get set).Within 0 := by
  intro v change hset
  rcases ofTree_long_eq_ok_iff.mp hset with ⟨n, hlong, _⟩
  cases v with
  | array items => cases hlong
  | object members => cases hlong
  | _ => simp [Value.depth]

theorem within_string (name : String) (spellings : List String) (get : σ -> Option String)
    (set : String -> σ -> σ) : (string name spellings get set).Within 0 := by
  intro v change hset
  rcases ofTree_string_eq_ok_iff.mp hset with ⟨text, rfl, _⟩
  simp [Value.depth]

theorem within_list {struct : Struct υ} {depth : Nat}
    (h : forall slot : Slot υ, slot ∈ struct.slots -> slot.Within depth) (name : String)
    (spellings : List String) (get : σ -> Option (List υ)) (set : List υ -> σ -> σ) :
    (Slot.list struct name spellings get set).Within (depth + 2) := by
  intro v change hset
  rcases ofTree_list_eq_ok_iff.mp hset with ⟨items, records, rfl, hall, _⟩
  rw [Value.depth_of_isContainer rfl]
  refine Nat.succ_le_succ (Value.itemsDepth_le ?_)
  intro item hmem
  rcases List.getElem_of_mem hmem with ⟨i, hi, rfl⟩
  exact Struct.depth_le_of_ofTree h (hall.get hi (hall.length_eq ▸ hi))

end Slot

end JsonBind
