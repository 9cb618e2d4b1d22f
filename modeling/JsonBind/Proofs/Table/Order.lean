import Mathlib.Data.List.Find
import JsonBind.Proofs.Table.Reading

/-!
# The order of declaration

Looking up a key takes the first column that it belongs to. In a declared table there is
only one, whatever the order of the columns. So neither the result of reading nor the
events that it tells depend on the order in which columns were declared, and whether they
can be declared at all does not depend on it either.
-/

namespace JsonBind
namespace Table

variable {τ κ : Type}

/-!
# Clashes
-/

theorem pairwise_disjoint_iff {table : Table τ κ} :
    table.columns.Pairwise Column.Disjoint <-> table.Unambiguous := by
  constructor
  · exact unambiguous_of_pairwise
  · intro hun
    rw [List.pairwise_iff_getElem]
    intro i j hi hj hlt key hfirst hsecond
    have heq : (⟨i, hi⟩ : table.Index) = ⟨j, hj⟩ := hun key _ _ hfirst hsecond
    cases heq
    exact Nat.lt_irrefl i hlt

theorem declareAll_new_eq_ok_iff {name : String} {lenient : Bool} {empty : τ}
    {columns : List (Column τ κ)} {table : Table τ κ} :
    (Table.new name lenient empty).declareAll columns = .ok table <->
      table.Unambiguous ∧ table = ⟨name, lenient, empty, columns⟩ := by
  rw [declareAll_eq_ok_iff, ← pairwise_disjoint_iff]
  constructor
  · rintro ⟨hpairs, _, rfl⟩
    exact ⟨hpairs, rfl⟩
  · rintro ⟨hpairs, rfl⟩
    refine ⟨hpairs, ?_, rfl⟩
    intro old hold
    cases hold

theorem exists_declareAll_new_iff {name : String} {lenient : Bool} {empty : τ}
    {columns : List (Column τ κ)} :
    (exists table : Table τ κ, (Table.new name lenient empty).declareAll columns = .ok table) <->
      Unambiguous ⟨name, lenient, empty, columns⟩ := by
  constructor
  · intro h
    rcases h with ⟨table, hdeclare⟩
    rcases declareAll_new_eq_ok_iff.mp hdeclare with ⟨hun, rfl⟩
    exact hun
  · intro hun
    exact ⟨_, declareAll_new_eq_ok_iff.mpr ⟨hun, rfl⟩⟩

theorem declareAll_new_eq_error_iff {name : String} {lenient : Bool} {empty : τ}
    {columns : List (Column τ κ)} :
    (exists clash : Clash, (Table.new name lenient empty).declareAll columns = .error clash) <->
      ¬ Unambiguous ⟨name, lenient, empty, columns⟩ := by
  cases hdeclare : (Table.new name lenient empty).declareAll columns with
  | ok table =>
      rcases declareAll_new_eq_ok_iff.mp hdeclare with ⟨hun, rfl⟩
      simp [hun]
  | error clash =>
      refine ⟨fun _ hun => ?_, fun _ => ⟨clash, rfl⟩⟩
      rw [declareAll_new_eq_ok_iff.mpr ⟨hun, rfl⟩] at hdeclare
      cases hdeclare

theorem not_unambiguous_iff {table : Table τ κ} :
    ¬ table.Unambiguous <->
      exists (first second : table.Index) (key : String),
        first ≠ second ∧ table.Resolves key first ∧ table.Resolves key second := by
  constructor
  · intro h
    by_contra hnone
    apply h
    intro key first second hfirst hsecond
    by_contra hne
    exact hnone ⟨first, second, key, hne, hfirst, hsecond⟩
  · rintro ⟨first, second, key, hne, hfirst, hsecond⟩ hun
    exact hne (hun key first second hfirst hsecond)

/-!
# Tables that find the same columns

Two tables may keep the same columns at different places. The places that are filled stand
for the members before, and so they correspond to each other.
-/

structure Alike (table table' : Table τ κ) : Prop where
  name : table.name = table'.name
  lenient : table.lenient = table'.lenient
  empty : table.empty = table'.empty
  columns : forall key : String,
    (table.find? key).map table.columns.get = (table'.find? key).map table'.columns.get

namespace Alike

variable {table table' : Table τ κ} {context : κ} {before : Members}
  {filled : List table.Index} {filled' : List table'.Index}

theorem exists_slot (h : table.Alike table') {key : String} {slot : table.Index}
    (hfind : table.find? key = some slot) :
    exists slot' : table'.Index,
      table'.find? key = some slot' ∧ table.columns.get slot = table'.columns.get slot' := by
  have hcolumns := h.columns key
  rw [hfind, Option.map_some] at hcolumns
  rcases Option.map_eq_some_iff.mp hcolumns.symm with ⟨slot', hfind', hcolumn⟩
  exact ⟨slot', hfind', hcolumn.symm⟩

theorem find?_eq_none (h : table.Alike table') {key : String} (hfind : table.find? key = none) :
    table'.find? key = none := by
  have hcolumns := h.columns key
  rw [hfind, Option.map_none] at hcolumns
  exact Option.map_eq_none_iff.mp hcolumns.symm

theorem mem_filled_iff (hfilled : table.FilledBy filled before)
    (hfilled' : table'.FilledBy filled' before) {slot : table.Index} {slot' : table'.Index}
    (hcolumn : table.columns.get slot = table'.columns.get slot') :
    slot ∈ filled <-> slot' ∈ filled' := by
  rw [hfilled slot, hfilled' slot']
  unfold Resolves
  rw [hcolumn]

theorem fillColumn_eq (h : table.Alike table') (hfilled : table.FilledBy filled before)
    (hfilled' : table'.FilledBy filled' before) {slot : table.Index} {slot' : table'.Index}
    (hcolumn : table.columns.get slot = table'.columns.get slot') (target : τ) (key : String)
    (value : Value) :
    table.fillColumn context filled target slot key value =
      table'.fillColumn context filled' target slot' key value := by
  have hmem := mem_filled_iff hfilled hfilled' hcolumn
  unfold fillColumn
  simp only [hcolumn, h.name, hmem]

theorem fillAll_eq (h : table.Alike table') (hun : table.Unambiguous)
    (hun' : table'.Unambiguous) (hfilled : table.FilledBy filled before)
    (hfilled' : table'.FilledBy filled' before) (target : τ) (members : Members) :
    table.fillAll context filled target members =
      table'.fillAll context filled' target members := by
  induction members generalizing filled filled' before target with
  | nil => rfl
  | cons member members ih =>
      rcases member with ⟨key, value⟩
      rw [fillAll, fillAll]
      cases hfind : table.find? key with
      | none =>
          have hfind' := h.find?_eq_none hfind
          rw [hfind', h.lenient, h.name]
          dsimp only
          rw [ih (hfilled.skip value (find?_eq_none_iff.mp hfind))
            (hfilled'.skip value (find?_eq_none_iff.mp hfind'))]
      | some slot =>
          rcases h.exists_slot hfind with ⟨slot', hfind', hcolumn⟩
          rw [hfind']
          dsimp only
          rw [h.fillColumn_eq hfilled hfilled' hcolumn]
          congr 1
          funext next
          exact ih (hfilled.fill hun value (resolves_of_find? hfind))
            (hfilled'.fill hun' value (resolves_of_find? hfind')) next

theorem read_eq (h : table.Alike table') (hun : table.Unambiguous) (hun' : table'.Unambiguous)
    (value : Value) (context : κ) : table.read value context = table'.read value context := by
  cases value with
  | object members =>
      rw [read, read, h.name, h.empty,
        h.fillAll_eq hun hun' (filledBy_nil table) (filledBy_nil table')]
  | _ => simp only [read, h.name]

end Alike

/-!
# Permuted columns
-/

theorem find?_map_get (table : Table τ κ) (key : String) :
    (table.find? key).map table.columns.get =
      table.columns.find? fun column => column.field.accepts key := by
  rw [List.find?_eq_map_findFinIdx?_getElem]
  rfl

theorem unambiguous_of_perm {name : String} {lenient : Bool} {empty : τ}
    {columns columns' : List (Column τ κ)} (hperm : columns.Perm columns') :
    Unambiguous ⟨name, lenient, empty, columns⟩ <->
      Unambiguous ⟨name, lenient, empty, columns'⟩ := by
  rw [← pairwise_disjoint_iff, ← pairwise_disjoint_iff]
  exact hperm.pairwise_iff Column.Disjoint.symm

theorem alike_of_perm {name : String} {lenient : Bool} {empty : τ}
    {columns columns' : List (Column τ κ)} (hperm : columns.Perm columns')
    (hun : Unambiguous ⟨name, lenient, empty, columns⟩) :
    Alike ⟨name, lenient, empty, columns⟩ ⟨name, lenient, empty, columns'⟩ where
  name := rfl
  lenient := rfl
  empty := rfl
  columns := by
    intro key
    rw [find?_map_get, find?_map_get]
    apply List.find?_eq_find?_of_perm hperm
    -- The columns that the key belongs to are one column at most.
    rintro first ⟨hmem, hfirst⟩ second ⟨hmem', hsecond⟩
    rcases List.getElem_of_mem hmem with ⟨i, hi, rfl⟩
    rcases List.getElem_of_mem hmem' with ⟨j, hj, rfl⟩
    have heq := hun key ⟨i, hi⟩ ⟨j, hj⟩ (Field.accepts_iff.mp hfirst) (Field.accepts_iff.mp hsecond)
    cases heq
    rfl

/-- Columns cannot be declared exactly if two of them have a spelling in common; a spelling may be
repeated within one of them. In a table that was declared a key belongs to at most one column. In
another order the same columns can be declared or not as well, and what the table reads then, and
what it tells, is the same. -/
theorem declareAll_order (name : String) (lenient : Bool) (empty : τ)
    (columns : List (Column τ κ)) :
    ((exists clash : Clash, (Table.new name lenient empty).declareAll columns = .error clash) <->
      exists (first second : Fin columns.length) (key : String), first ≠ second ∧
        key ∈ (columns.get first).field.spellings ∧
          key ∈ (columns.get second).field.spellings) ∧
    (forall table : Table τ κ, (Table.new name lenient empty).declareAll columns = .ok table ->
      forall (key : String) (first second : table.Index),
        (table.columns.get first).field.accepts key = true ->
          (table.columns.get second).field.accepts key = true -> first = second) ∧
    forall columns' : List (Column τ κ), columns.Perm columns' ->
      ((exists clash : Clash, (Table.new name lenient empty).declareAll columns = .error clash) <->
        exists clash : Clash,
          (Table.new name lenient empty).declareAll columns' = .error clash) ∧
      forall table table' : Table τ κ,
        (Table.new name lenient empty).declareAll columns = .ok table ->
          (Table.new name lenient empty).declareAll columns' = .ok table' ->
            forall (value : Value) (context : κ),
              table.read value context = table'.read value context := by
  refine ⟨declareAll_new_eq_error_iff.trans not_unambiguous_iff, ?_, ?_⟩
  · intro table hdeclare key first second hfirst hsecond
    exact unambiguous_of_declareAll hdeclare key first second (Field.accepts_iff.mp hfirst)
      (Field.accepts_iff.mp hsecond)
  · intro columns' hperm
    constructor
    · rw [declareAll_new_eq_error_iff, declareAll_new_eq_error_iff, unambiguous_of_perm hperm]
    · intro table table' hdeclare hdeclare' value context
      rcases declareAll_new_eq_ok_iff.mp hdeclare with ⟨hun, rfl⟩
      rcases declareAll_new_eq_ok_iff.mp hdeclare' with ⟨hun', rfl⟩
      exact (alike_of_perm hperm hun).read_eq hun hun' value context

def epochs : Column (List Int64) Unit :=
  ⟨⟨"epoch", ["t"]⟩, .long fun ns n => ns ++ [n]⟩

def totals : Column (List Int64) Unit :=
  ⟨⟨"count", ["dc"]⟩, .long fun ns n => ns ++ [n]⟩

theorem declareAll_order_swapped :
    ((Table.new "counts" false []).declareAll [epochs, totals] =
        .ok ⟨"counts", false, [], [epochs, totals]⟩ ∧
      (Table.new "counts" false []).declareAll [totals, epochs] =
        .ok ⟨"counts", false, [], [totals, epochs]⟩ ∧
      forall value : Value,
        read ⟨"counts", false, [], [epochs, totals]⟩ value () =
          read ⟨"counts", false, [], [totals, epochs]⟩ value ()) ∧
    exists clash : Clash,
      (Table.new "counts" false []).declareAll [totals, epochs, totals] = .error clash := by
  have swapped := (declareAll_order "counts" false [] [epochs, totals]).right.right
    [totals, epochs] (.swap _ _ _)
  have clashes := (declareAll_order "counts" false [] [totals, epochs, totals]).left
  refine ⟨⟨rfl, rfl, fun value => swapped.right _ _ rfl rfl value ()⟩, clashes.mpr ?_⟩
  exact ⟨⟨0, by decide⟩, ⟨2, by decide⟩, "dc", by decide, by decide, by decide⟩

end Table
end JsonBind
