import JsonBind.Table

/-!
# Columns of a declared table

Columns that are declared one after the other have no spelling in common, so a key
belongs to at most one of them. That is all that declaring checks.
-/

namespace JsonBind

namespace Field

theorem accepts_iff {field : Field} {key : String} :
    field.accepts key = true <-> key ∈ field.spellings := by
  rw [accepts, List.contains_iff_mem]

end Field

namespace Column

variable {τ κ : Type}

def Disjoint (first second : Column τ κ) : Prop :=
  forall key : String, key ∈ first.field.spellings -> key ∉ second.field.spellings

theorem Disjoint.symm {first second : Column τ κ} (h : first.Disjoint second) :
    second.Disjoint first :=
  fun key hsecond hfirst => h key hfirst hsecond

end Column

namespace Table

variable {τ κ : Type}

def Resolves (table : Table τ κ) (key : String) (slot : table.Index) : Prop :=
  key ∈ (table.columns.get slot).field.spellings

def Unambiguous (table : Table τ κ) : Prop :=
  forall (key : String) (first second : table.Index),
    table.Resolves key first -> table.Resolves key second -> first = second

/-!
# Looking up
-/

theorem resolves_of_find? {table : Table τ κ} {key : String} {slot : table.Index}
    (h : table.find? key = some slot) : table.Resolves key slot := by
  rw [find?, List.findFinIdx?_eq_some_iff] at h
  exact Field.accepts_iff.mp h.left

theorem find?_eq_none_iff {table : Table τ κ} {key : String} :
    table.find? key = none <-> forall slot : table.Index, ¬ table.Resolves key slot := by
  rw [find?, List.findFinIdx?_eq_none_iff]
  constructor
  · intro h slot hslot
    exact h (table.columns.get slot) (List.getElem_mem _) (Field.accepts_iff.mpr hslot)
  · intro h column hcolumn haccepts
    rcases List.getElem_of_mem hcolumn with ⟨i, hi, heq⟩
    apply h ⟨i, hi⟩
    rw [Resolves]
    change key ∈ table.columns[i].field.spellings
    rw [heq]
    exact Field.accepts_iff.mp haccepts

theorem find?_eq_some_iff {table : Table τ κ} (h : table.Unambiguous) {key : String}
    {slot : table.Index} : table.find? key = some slot <-> table.Resolves key slot := by
  constructor
  · exact resolves_of_find?
  · intro hslot
    cases hfind : table.find? key with
    | none => exact absurd hslot (find?_eq_none_iff.mp hfind slot)
    | some found => rw [h key found slot (resolves_of_find? hfind) hslot]

/-!
# Declaring
-/

theorem declare_eq_ok_iff {table table' : Table τ κ} {column : Column τ κ} :
    table.declare column = .ok table' <->
      (forall other : Column τ κ, other ∈ table.columns -> other.Disjoint column) ∧
        table' = { table with columns := table.columns ++ [column] } := by
  have hfree : column.field.spellings.find? (fun spelling => (table.find? spelling).isSome) =
        none <->
      forall other : Column τ κ, other ∈ table.columns -> other.Disjoint column := by
    rw [List.find?_eq_none]
    constructor
    · intro h other hother key hkey hspelling
      apply h key hspelling
      rw [Option.isSome_iff_ne_none]
      intro hnone
      rcases List.getElem_of_mem hother with ⟨i, hi, heq⟩
      apply find?_eq_none_iff.mp hnone ⟨i, hi⟩
      change key ∈ table.columns[i].field.spellings
      rw [heq]
      exact hkey
    · intro h key hspelling hsome
      rcases Option.isSome_iff_exists.mp hsome with ⟨slot, hslot⟩
      exact h (table.columns.get slot) (List.getElem_mem _) key (resolves_of_find? hslot) hspelling
  rw [declare, ← hfree]
  cases column.field.spellings.find? fun spelling => (table.find? spelling).isSome with
  | none =>
      constructor
      · intro h
        cases h
        exact ⟨rfl, rfl⟩
      · rintro ⟨_, rfl⟩
        rfl
  | some spelling =>
      constructor
      · intro h
        cases h
      · rintro ⟨h, _⟩
        cases h

/-- Columns can be declared exactly if no two of them, and none of them and one that is there
already, have a spelling in common. -/
theorem declareAll_eq_ok_iff {table table' : Table τ κ} {columns : List (Column τ κ)} :
    table.declareAll columns = .ok table' <->
      columns.Pairwise Column.Disjoint ∧
        (forall old : Column τ κ, old ∈ table.columns ->
          forall new : Column τ κ, new ∈ columns -> old.Disjoint new) ∧
        table' = { table with columns := table.columns ++ columns } := by
  induction columns generalizing table with
  | nil =>
      rw [declareAll, List.append_nil]
      constructor
      · intro h
        cases h
        refine ⟨List.Pairwise.nil, ?_, rfl⟩
        intro old _ new hnew
        cases hnew
      · rintro ⟨_, _, rfl⟩
        rfl
  | cons column columns ih =>
      rw [declareAll]
      cases hdeclare : table.declare column with
      | error clash =>
          constructor
          · intro h
            cases h
          · rintro ⟨_, hold, _⟩
            have hok := declare_eq_ok_iff.mpr
              ⟨fun other hother => hold other hother column List.mem_cons_self, rfl⟩
            rw [hdeclare] at hok
            cases hok
      | ok declared =>
          rcases declare_eq_ok_iff.mp hdeclare with ⟨hcolumn, rfl⟩
          change declareAll _ columns = .ok table' <-> _
          rw [ih]
          simp only [List.pairwise_cons, List.mem_append, List.mem_cons, List.append_assoc,
            List.cons_append, List.nil_append]
          constructor
          · rintro ⟨hpairs, hold, rfl⟩
            refine ⟨⟨fun new hnew => hold column (by simp) new hnew, hpairs⟩, ?_, rfl⟩
            intro old hmem new hnew
            rcases hnew with rfl | hnew
            · exact hcolumn old hmem
            · exact hold old (Or.inl hmem) new hnew
          · rintro ⟨⟨hnew, hpairs⟩, hold, rfl⟩
            refine ⟨hpairs, ?_, rfl⟩
            intro old hmem new hmem'
            rcases hmem with hmem | rfl | hnil
            · exact hold old hmem new (Or.inr hmem')
            · exact hnew new hmem'
            · cases hnil

theorem unambiguous_of_pairwise {table : Table τ κ}
    (h : table.columns.Pairwise Column.Disjoint) : table.Unambiguous := by
  intro key first second hfirst hsecond
  rcases Nat.lt_trichotomy first second with hlt | heq | hlt
  · have hdisjoint := List.pairwise_iff_getElem.mp h first second first.isLt second.isLt hlt
    exact absurd hsecond (hdisjoint key hfirst)
  · exact Fin.ext heq
  · have hdisjoint := List.pairwise_iff_getElem.mp h second first second.isLt first.isLt hlt
    exact absurd hfirst (hdisjoint key hsecond)

theorem unambiguous_of_declareAll {name : String} {lenient : Bool} {empty : τ}
    {columns : List (Column τ κ)} {table : Table τ κ}
    (h : (Table.new name lenient empty).declareAll columns = .ok table) :
    table.Unambiguous := by
  rcases declareAll_eq_ok_iff.mp h with ⟨hpairs, _, rfl⟩
  exact unambiguous_of_pairwise hpairs

def Declared (table : Table τ κ) : Prop :=
  (Table.new table.name table.lenient table.empty).declareAll table.columns = .ok table

theorem Declared.unambiguous {table : Table τ κ} (h : table.Declared) : table.Unambiguous :=
  unambiguous_of_declareAll h

end Table
end JsonBind
