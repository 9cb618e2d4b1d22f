import JsonBind.Value.Depth
import JsonBind.Proofs.Table.Reading
import JsonBind.Proofs.Value.Members

/-!
# Variations of objects

What a table reads from an object does not depend on the order of the members, if its
setters do not depend on the order in which they are applied; and it does not depend on
which of the spellings of its fields are used. Which error is found may well depend on
both, so this is about what can be read, and what it is read to.
-/

namespace JsonBind

/-!
# Variations of values
-/

namespace Value

/-- The members of one object, somewhere inside of a value, are put in another order. -/
inductive Reorders : Value -> Value -> Prop where
  | members {members members' : Members} :
      members.Perm members' ->
      Reorders (.object members) (.object members')
  | item {before after : List Value} {item item' : Value} :
      Reorders item item' ->
      Reorders (.array (before ++ item :: after)) (.array (before ++ item' :: after))
  | member {before after : Members} {name : String} {v v' : Value} :
      Reorders v v' ->
      Reorders (.object (before ++ (name, v) :: after)) (.object (before ++ (name, v') :: after))

theorem Reorders.isContainer {v w : Value} (h : Reorders v w) :
    v.isContainer = true ∧ w.isContainer = true := by
  cases h <;> exact ⟨rfl, rfl⟩

theorem Reorders.isObject_eq {v w : Value} (h : Reorders v w) : v.isObject = w.isObject := by
  cases h <;> rfl

end Value

/-- One member of an object gets another spelling of the same column as its key, one that the object
does not have yet. -/
inductive Table.Respells {τ κ : Type} (table : Table τ κ) : Value -> Value -> Prop where
  | key {before after : Members} {column : Column τ κ} {key other : String} {v : Value} :
      column ∈ table.columns ->
      key ∈ column.field.spellings ->
      other ∈ column.field.spellings ->
      other ∉ Members.names (before ++ (key, v) :: after) ->
      Respells table (.object (before ++ (key, v) :: after))
        (.object (before ++ (other, v) :: after))

theorem Table.Respells.isObject_eq {τ κ : Type} {table : Table τ κ} {v w : Value}
    (h : table.Respells v w) : v.isObject = w.isObject := by
  cases h
  rfl

/-!
# Items
-/

section

variable {υ κ : Type} {read : Value -> κ -> Outcome υ} {context : κ}

theorem itemsConvert_replace_iff {item item' : Value} (hobject : item.isObject = item'.isObject)
    (hread : forall found : υ,
      (read item context).result = .ok found <-> (read item' context).result = .ok found)
    (before after : List Value) (found : List υ) :
    ItemsConvert read context (before ++ item :: after) found <->
      ItemsConvert read context (before ++ item' :: after) found := by
  unfold ItemsConvert
  induction before generalizing found with
  | nil => simp only [List.nil_append, List.forall₂_cons_left_iff, hobject, hread]
  | cons first before ih => simp only [List.cons_append, List.forall₂_cons_left_iff, ih]

end

/-!
# Columns
-/

namespace Column

variable {τ κ : Type}

/-- What the first column sets and what the second one sets may be set in either order. -/
def Commutes (context : κ) (first second : Column τ κ) : Prop :=
  forall (v w : Value) (set set' : τ -> τ), first.binding.Converts context v set ->
    second.binding.Converts context w set' -> set ∘ set' = set' ∘ set

theorem Commutes.symm {context : κ} {first second : Column τ κ}
    (h : Commutes context first second) : Commutes context second first :=
  fun v w set set' hset hset' => (h w v set' set hset' hset).symm

/-- The column takes both values or neither, and makes the same change of them. -/
def Agrees (column : Column τ κ) (context : κ) (v w : Value) : Prop :=
  forall set : τ -> τ,
    column.binding.shape.accepts v = true ∧ column.binding.Converts context v set <->
      column.binding.shape.accepts w = true ∧ column.binding.Converts context w set

theorem not_accepts_of_isContainer {column : Column τ κ} (hobject : column.binding.shape ≠ .object)
    (harray : column.binding.shape ≠ .objectArray) {v : Value} (h : v.isContainer = true) :
    column.binding.shape.accepts v = false := by
  cases v with
  | array items =>
      cases hshape : column.binding.shape with
      | objectArray => exact absurd hshape harray
      | _ => rfl
  | object members =>
      cases hshape : column.binding.shape with
      | object => exact absurd hshape hobject
      | _ => rfl
  | _ => cases h

theorem agrees_of_isContainer {column : Column τ κ} {context : κ}
    (hobject : column.binding.shape ≠ .object) (harray : column.binding.shape ≠ .objectArray)
    {v w : Value} (hv : v.isContainer = true) (hw : w.isContainer = true) :
    column.Agrees context v w := by
  intro set
  rw [not_accepts_of_isContainer hobject harray hv, not_accepts_of_isContainer hobject harray hw]
  constructor <;> rintro ⟨haccepts, _⟩ <;> cases haccepts

variable {υ : Type} {field : Field} {read : Value -> κ -> Outcome υ} {context : κ}

theorem agrees_array {set : τ -> List υ -> τ} {items items' : List Value}
    (h : forall found : List υ,
      ItemsConvert read context items found <-> ItemsConvert read context items' found) :
    Agrees ⟨field, .objectArray read set⟩ context (.array items) (.array items') := by
  intro change
  constructor
  · rintro ⟨_, hconverts⟩
    cases hconverts with
    | objectArray _ hitems => exact ⟨rfl, .objectArray set ((h _).mp hitems)⟩
  · rintro ⟨_, hconverts⟩
    cases hconverts with
    | objectArray _ hitems => exact ⟨rfl, .objectArray set ((h _).mpr hitems)⟩

theorem agrees_of_reorders (set : τ -> List υ -> τ)
    (hread : forall (item item' : Value) (found : υ), item.Reorders item' ->
      ((read item context).result = .ok found <-> (read item' context).result = .ok found))
    {v w : Value} (h : v.Reorders w) :
    Agrees ⟨field, .objectArray read set⟩ context v w := by
  cases h with
  | item hitem =>
      rename_i before after item item'
      exact agrees_array (itemsConvert_replace_iff hitem.isObject_eq
        (fun found => hread item item' found hitem) before after)
  | members _ =>
      intro change
      constructor <;> rintro ⟨haccepts, _⟩ <;> cases haccepts
  | member _ =>
      intro change
      constructor <;> rintro ⟨haccepts, _⟩ <;> cases haccepts

end Column

namespace Table

variable {τ κ : Type}

/-!
# Permuted members
-/

def Commutes (table : Table τ κ) (context : κ) : Prop :=
  table.columns.Pairwise (Column.Commutes context)

theorem Commutes.get {table : Table τ κ} {context : κ} (h : table.Commutes context)
    {first second : table.Index} (hne : first ≠ second) :
    Column.Commutes context (table.columns.get first) (table.columns.get second) := by
  rcases Nat.lt_or_gt_of_ne (Fin.val_ne_of_ne hne) with hlt | hlt
  · exact List.pairwise_iff_getElem.mp h first second first.isLt second.isLt hlt
  · exact Column.Commutes.symm
      (List.pairwise_iff_getElem.mp h second first second.isLt first.isLt hlt)

def Apart (table : Table τ κ) (members : Members) : Prop :=
  members.Pairwise fun first second =>
    forall slot : table.Index, table.Resolves first.1 slot -> ¬ table.Resolves second.1 slot

theorem apart_of_perm {table : Table τ κ} {members members' : Members}
    (hperm : members.Perm members') (h : table.Apart members) : table.Apart members' :=
  hperm.pairwise h fun hfirst slot hsecond hresolves => hfirst slot hresolves hsecond

theorem Readable.perm {table : Table τ κ} {context : κ} {members members' : Members}
    (h : Readable table context members) (hperm : members.Perm members') :
    Readable table context members' where
  declared := by
    rcases h.declared with hlenient | hdeclared
    · exact Or.inl hlenient
    · exact Or.inr fun member hmem => hdeclared member (hperm.mem_iff.mpr hmem)
  once := apart_of_perm hperm h.once
  converts member slot hmem := h.converts member slot (hperm.mem_iff.mpr hmem)

theorem Sets.swap {table : Table τ κ} {context : κ} (hcommutes : table.Commutes context)
    {first second : String × Value} {members : Members} {sets : τ -> τ}
    (hapart : forall slot : table.Index,
      table.Resolves first.1 slot -> ¬ table.Resolves second.1 slot)
    (h : Sets table context (first :: second :: members) sets) :
    Sets table context (second :: first :: members) sets := by
  cases h with
  | skip hfirst hmore =>
      cases hmore with
      | skip hsecond hrest => exact .skip hsecond (.skip hfirst hrest)
      | set hsecond hset hrest => exact .set hsecond hset (.skip hfirst hrest)
  | set hfirst hset hmore =>
      rename_i slot set sets
      cases hmore with
      | skip hsecond hrest => exact .skip hsecond (.set hfirst hset hrest)
      | set hsecond hset' hrest =>
          rename_i slot' set' sets
          have hne : slot' ≠ slot := by
            rintro rfl
            exact hapart slot' hfirst hsecond
          have hswap : (sets ∘ set') ∘ set = (sets ∘ set) ∘ set' := by
            rw [Function.comp_assoc, hcommutes.get hne _ _ set' set hset' hset, Function.comp_assoc]
          rw [hswap]
          exact .set hsecond hset' (.set hfirst hset hrest)

theorem Sets.perm {table : Table τ κ} {context : κ} (hcommutes : table.Commutes context)
    {members members' : Members} {sets : τ -> τ} (hperm : members.Perm members')
    (hapart : table.Apart members) (h : Sets table context members sets) :
    Sets table context members' sets := by
  induction hperm generalizing sets with
  | nil => exact h
  | cons member _ ih =>
      have hrest := (List.pairwise_cons.mp hapart).right
      cases h with
      | skip hunknown hsets => exact .skip hunknown (ih hrest hsets)
      | set hslot hset hsets => exact .set hslot hset (ih hrest hsets)
  | swap second first members =>
      exact Sets.swap hcommutes ((List.pairwise_cons.mp hapart).left second List.mem_cons_self) h
  | trans hperm _ ih ih' => exact ih' (apart_of_perm hperm hapart) (ih hapart h)

section

variable {table : Table τ κ} {context : κ} (hun : table.Unambiguous)

include hun

theorem result_read_object_eq_ok_iff {members : Members} {target : τ} :
    (table.read (.object members) context).result = .ok target <->
      Readable table context members ∧
        exists sets : τ -> τ, Sets table context members sets ∧ target = sets table.empty := by
  rw [result_read_eq_ok_iff hun]
  constructor
  · rintro ⟨_, sets, heq, hreadable, hsets, htarget⟩
    cases heq
    exact ⟨hreadable, sets, hsets, htarget⟩
  · rintro ⟨hreadable, sets, hsets, htarget⟩
    exact ⟨members, sets, rfl, hreadable, hsets, htarget⟩

variable (hcommutes : table.Commutes context)

include hcommutes

theorem result_read_of_perm {members members' : Members} (hperm : members.Perm members')
    {target : τ} (h : (table.read (.object members) context).result = .ok target) :
    (table.read (.object members') context).result = .ok target := by
  rcases (result_read_object_eq_ok_iff hun).mp h with ⟨hreadable, sets, hsets, rfl⟩
  exact (result_read_object_eq_ok_iff hun).mpr
    ⟨hreadable.perm hperm, sets, hsets.perm hcommutes hperm hreadable.once, rfl⟩

theorem result_read_perm_iff {members members' : Members} (hperm : members.Perm members')
    (target : τ) :
    (table.read (.object members) context).result = .ok target <->
      (table.read (.object members') context).result = .ok target :=
  ⟨result_read_of_perm hun hcommutes hperm, result_read_of_perm hun hcommutes hperm.symm⟩

end

/-!
# Replaced members
-/

structure Agrees (table : Table τ κ) (context : κ) (first second : String × Value) : Prop where
  resolves : forall slot : table.Index,
    table.Resolves first.1 slot <-> table.Resolves second.1 slot
  converts : forall slot : table.Index, table.Resolves first.1 slot ->
    (table.columns.get slot).Agrees context first.2 second.2

theorem Agrees.symm {table : Table τ κ} {context : κ} {first second : String × Value}
    (h : table.Agrees context first second) : table.Agrees context second first where
  resolves slot := (h.resolves slot).symm
  converts slot hslot set := (h.converts slot ((h.resolves slot).mpr hslot) set).symm

theorem Readable.replace {table : Table τ κ} {context : κ} {first second : String × Value}
    {members : Members} (h : Readable table context (first :: members))
    (hagrees : table.Agrees context first second) :
    Readable table context (second :: members) where
  declared := by
    rcases h.declared with hlenient | hdeclared
    · exact Or.inl hlenient
    · apply Or.inr
      intro member hmem
      cases hmem with
      | head _ =>
          rcases hdeclared first List.mem_cons_self with ⟨slot, hslot⟩
          exact ⟨slot, (hagrees.resolves slot).mp hslot⟩
      | tail _ hmem => exact hdeclared member (List.mem_cons_of_mem first hmem)
  once := by
    rcases List.pairwise_cons.mp h.once with ⟨hfirst, hrest⟩
    refine List.pairwise_cons.mpr ⟨?_, hrest⟩
    intro other hmem slot hslot
    exact hfirst other hmem slot ((hagrees.resolves slot).mpr hslot)
  converts := by
    intro member slot hmem hslot
    cases hmem with
    | head _ =>
        have hslot' := (hagrees.resolves slot).mpr hslot
        rcases h.converts first slot List.mem_cons_self hslot' with ⟨haccepts, set, hset⟩
        have hsecond := (hagrees.converts slot hslot' set).mp ⟨haccepts, hset⟩
        exact ⟨hsecond.left, set, hsecond.right⟩
    | tail _ hmem => exact h.converts member slot (List.mem_cons_of_mem first hmem) hslot

theorem Sets.replace {table : Table τ κ} {context : κ} {first second : String × Value}
    {members : Members} {sets : τ -> τ} (h : Sets table context (first :: members) sets)
    (hreadable : Readable table context (first :: members))
    (hagrees : table.Agrees context first second) :
    Sets table context (second :: members) sets := by
  cases h with
  | skip hunknown hrest =>
      exact .skip (fun slot hslot => hunknown slot ((hagrees.resolves slot).mpr hslot)) hrest
  | set hslot hset hrest =>
      rename_i slot set _
      have haccepts := (hreadable.converts _ slot List.mem_cons_self hslot).left
      have hsecond := (hagrees.converts slot hslot set).mp ⟨haccepts, hset⟩
      exact .set ((hagrees.resolves slot).mp hslot) hsecond.right hrest

section

variable {table : Table τ κ} {context : κ} (hun : table.Unambiguous)

include hun

theorem result_read_of_replaced {first second : String × Value} {members : Members}
    (hagrees : table.Agrees context first second) {target : τ}
    (h : (table.read (.object (first :: members)) context).result = .ok target) :
    (table.read (.object (second :: members)) context).result = .ok target := by
  rcases (result_read_object_eq_ok_iff hun).mp h with ⟨hreadable, sets, hsets, rfl⟩
  exact (result_read_object_eq_ok_iff hun).mpr
    ⟨hreadable.replace hagrees, sets, hsets.replace hreadable hagrees, rfl⟩

theorem resolves_iff_of_spellings {column : Column τ κ} (hcolumn : column ∈ table.columns)
    {key other : String} (hkey : key ∈ column.field.spellings)
    (hother : other ∈ column.field.spellings) (slot : table.Index) :
    table.Resolves key slot <-> table.Resolves other slot := by
  rcases List.getElem_of_mem hcolumn with ⟨i, hi, rfl⟩
  constructor
  · intro hslot
    cases hun key slot ⟨i, hi⟩ hslot hkey
    exact hother
  · intro hslot
    cases hun other slot ⟨i, hi⟩ hslot hother
    exact hkey

variable (hcommutes : table.Commutes context)

include hcommutes

/-- Wherever a member stands, it may be replaced by one to which the table makes no difference:
moved to the front, it is replaced there. -/
theorem result_read_replace_iff {first second : String × Value}
    (hagrees : table.Agrees context first second) (before after : Members) (target : τ) :
    (table.read (.object (before ++ first :: after)) context).result = .ok target <->
      (table.read (.object (before ++ second :: after)) context).result = .ok target := by
  rw [result_read_perm_iff hun hcommutes List.perm_middle,
    result_read_perm_iff hun hcommutes List.perm_middle]
  exact ⟨result_read_of_replaced hun hagrees, result_read_of_replaced hun hagrees.symm⟩

theorem result_read_iff_of_reorders
    (hagrees : forall column : Column τ κ, column ∈ table.columns ->
      forall v w : Value, v.Reorders w -> column.Agrees context v w)
    {v w : Value} (h : v.Reorders w) (target : τ) :
    (table.read v context).result = .ok target <->
      (table.read w context).result = .ok target := by
  cases h with
  | members hperm => exact result_read_perm_iff hun hcommutes hperm target
  | item _ => constructor <;> intro hread <;> cases hread
  | member hv =>
      rename_i before after name v w
      refine result_read_replace_iff hun hcommutes ?_ before after target
      exact ⟨fun slot => Iff.rfl, fun slot _ => hagrees _ (List.get_mem _ slot) v w hv⟩

theorem result_read_iff_of_respells {v w : Value} (h : table.Respells v w) (target : τ) :
    (table.read v context).result = .ok target <->
      (table.read w context).result = .ok target := by
  cases h with
  | key hcolumn hkey hother _ =>
      rename_i before after _ _ _ _ _
      refine result_read_replace_iff hun hcommutes ?_ before after target
      exact ⟨resolves_iff_of_spellings hun hcolumn hkey hother, fun slot _ set => Iff.rfl⟩

end

end Table
end JsonBind
