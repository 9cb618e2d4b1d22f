import JsonBind.Proofs.Table.Variation
import JsonBind.Proofs.Table.Long

/-!
# Canonical members

The members of an object that belong to one field are one member at most, if the object
can be read. Its canonical form has the name of the field, and a value that depends on
the value that was read only. This is what a column holds after reading, if it is
written as a member again.
-/

namespace JsonBind

/-!
# Values of longs
-/

namespace Value

inductive CanonicalLong : Value -> Value -> Prop where
  | integer {v : Value} {n : Int} (bounds : Number.Bounds n) :
      v.Denotes n ->
      CanonicalLong v (.number (.int n bounds))

theorem CanonicalLong.rightUnique : Relator.RightUnique CanonicalLong := by
  intro v w w' h h'
  cases h with
  | integer bounds hdenotes =>
      cases h' with
      | integer bounds' hdenotes' =>
          cases Denotes.rightUnique hdenotes hdenotes'
          rfl

theorem canonicalLong_of_long? {v : Value} {m : Int64} (h : v.long? = some m) :
    v.CanonicalLong (.long m) :=
  .integer _ (long?_eq_some_iff.mp h)

end Value

/-!
# Members of one field
-/

namespace Field

/-- The members of one field, under its name and with canonical values. -/
def Kept (field : Field) (canonical : Value -> Value -> Prop) (members : Members) :
    Members -> Prop :=
  List.Forall₂ (fun member kept => kept.1 = field.name ∧ canonical member.2 kept.2)
    (members.filter fun member => field.accepts member.1)

section

variable {field : Field} {canonical : Value -> Value -> Prop}

theorem Kept.rightUnique (h : Relator.RightUnique canonical) :
    Relator.RightUnique (field.Kept canonical) := by
  intro members kept kept' hkept hkept'
  refine List.right_unique_forall₂' ?_ hkept hkept'
  intro member first second hfirst hsecond
  exact Prod.ext (hfirst.left.trans hsecond.left.symm) (h hfirst.right hsecond.right)

theorem kept_of_absent {members : Members}
    (h : forall member : String × Value, member ∈ members -> member.1 ∉ field.spellings) :
    field.Kept canonical members [] := by
  have hnil : members.filter (fun member => field.accepts member.1) = [] :=
    List.filter_eq_nil_iff.mpr fun member hmem => mt accepts_iff.mp (h member hmem)
  rw [Kept, hnil]
  exact .nil

theorem Kept.skip {key : String} (value : Value) {rest kept : Members}
    (h : field.Kept canonical rest kept) (hkey : key ∉ field.spellings) :
    field.Kept canonical ((key, value) :: rest) kept := by
  rw [Kept, List.filter_cons, if_neg (mt accepts_iff.mp hkey)]
  exact h

theorem Kept.keep {key : String} {value w : Value} {rest kept : Members}
    (h : field.Kept canonical rest kept) (hkey : key ∈ field.spellings)
    (hvalue : canonical value w) :
    field.Kept canonical ((key, value) :: rest) ((field.name, w) :: kept) := by
  rw [Kept, List.filter_cons, if_pos (accepts_iff.mpr hkey)]
  exact .cons ⟨rfl, hvalue⟩ h

end

end Field

/-!
# Columns
-/

namespace Table

variable {τ κ : Type}

/-- A column is the only one that sets one part of what is built, and it sets that part to
canonical values. -/
structure Stores (table : Table τ κ) (context : κ) (slot : table.Index)
    (canonical : Value -> Value -> Prop) (get : τ -> Option Value) : Prop where
  empty : get table.empty = none
  sets : forall {v : Value} {set : τ -> τ},
    (table.columns.get slot).binding.Converts context v set ->
      forall target : τ, exists w : Value, canonical v w ∧ get (set target) = some w
  keeps : forall {other : table.Index} {v : Value} {set : τ -> τ}, other ≠ slot ->
    (table.columns.get other).binding.Converts context v set ->
      forall target : τ, get (set target) = get target

namespace Stores

variable {table : Table τ κ} {context : κ} {slot : table.Index}
  {canonical : Value -> Value -> Prop} {get : τ -> Option Value}

theorem get_of_absent (h : table.Stores context slot canonical get) {members : Members}
    {sets : τ -> τ} (hsets : Sets table context members sets)
    (habsent : forall member : String × Value, member ∈ members ->
      ¬ table.Resolves member.1 slot) (target : τ) : get (sets target) = get target := by
  induction hsets generalizing target with
  | nil => rfl
  | skip _ _ ih => exact ih (fun member hmem => habsent member (List.mem_cons_of_mem _ hmem)) target
  | set hslot hset _ ih =>
      rename_i other set sets _
      have hne : other ≠ slot := by
        intro heq
        rw [heq] at hslot
        exact habsent _ List.mem_cons_self hslot
      calc
        get (sets (set target)) = get (set target) :=
          ih (fun member hmem => habsent member (List.mem_cons_of_mem _ hmem)) (set target)
        _ = get target := h.keeps hne hset target

theorem kept_of_sets (h : table.Stores context slot canonical get) (hun : table.Unambiguous)
    {members : Members} {sets : τ -> τ} (hsets : Sets table context members sets)
    (hapart : table.Apart members) {target : τ} (hnone : get target = none) :
    (table.columns.get slot).field.Kept canonical members
      (Members.optional (table.columns.get slot).field.name (get (sets target))) := by
  induction hsets generalizing target with
  | nil =>
      rw [id, hnone]
      exact .nil
  | skip hunknown _ ih =>
      exact (ih (List.pairwise_cons.mp hapart).right hnone).skip _ (hunknown slot)
  | set hslot hset hsets ih =>
      rename_i other set sets
      rcases List.pairwise_cons.mp hapart with ⟨hfirst, hrest⟩
      by_cases heq : other = slot
      · subst heq
        have habsent := fun member hmem => hfirst member hmem other hslot
        rcases h.sets hset target with ⟨w, hcanonical, hget⟩
        rw [Function.comp_apply, h.get_of_absent hsets habsent, hget]
        exact (Field.kept_of_absent habsent).keep hslot hcanonical
      · have hkeeps := h.keeps heq hset target
        rw [hnone] at hkeeps
        exact (ih hrest hkeeps).skip _ fun hkey => heq (hun _ other slot hslot hkey)

theorem kept_of_read (h : table.Stores context slot canonical get) (hun : table.Unambiguous)
    {members : Members} {target : τ}
    (hread : (table.read (.object members) context).result = .ok target) :
    (table.columns.get slot).field.Kept canonical members
      (Members.optional (table.columns.get slot).field.name (get target)) := by
  rcases (result_read_object_eq_ok_iff hun).mp hread with ⟨hreadable, sets, hsets, rfl⟩
  exact h.kept_of_sets hun hsets hreadable.once h.empty

end Stores
end Table
end JsonBind
