import JsonBind.Proofs.Table.Order

/-!
# Lenient tables

A lenient table has the columns of a strict one, and skips the members that belong to none
of them. It reads what the strict table reads of the other members, and finds the same
errors there. An undeclared member of an object further inside is an error of the field
that the object is in, and so it is not skipped.
-/

namespace JsonBind
namespace Table

variable {τ κ : Type}

def declared (table : Table τ κ) (members : Members) : Members :=
  members.filter fun member => table.columns.any fun column => column.field.accepts member.1

theorem declared_cons_of_resolves {table : Table τ κ} {key : String} {slot : table.Index}
    (h : table.Resolves key slot) (value : Value) (rest : Members) :
    table.declared ((key, value) :: rest) = (key, value) :: table.declared rest := by
  apply List.filter_cons_of_pos
  apply List.any_eq_true.mpr
  exact ⟨table.columns.get slot, List.get_mem _ _, Field.accepts_iff.mpr h⟩

theorem declared_cons_of_unknown {table : Table τ κ} {key : String}
    (h : forall slot : table.Index, ¬ table.Resolves key slot) (value : Value) (rest : Members) :
    table.declared ((key, value) :: rest) = table.declared rest := by
  apply List.filter_cons_of_neg
  intro hany
  rcases List.any_eq_true.mp hany with ⟨column, hmem, haccepts⟩
  rcases List.getElem_of_mem hmem with ⟨i, hi, rfl⟩
  exact h ⟨i, hi⟩ (Field.accepts_iff.mp haccepts)

/-!
# Member by member

The two tables have the same columns, so that they keep account of the filled ones in the same
way. A member that is skipped is not entered there.
-/

section

variable {name : String} {empty : τ} {columns : List (Column τ κ)} {context : κ}

theorem result_fillAll_lenient (filled : List (Fin columns.length)) (target : τ)
    (members : Members) :
    (fillAll ⟨name, true, empty, columns⟩ context filled target members).result =
      (fillAll ⟨name, false, empty, columns⟩ context filled target
        (declared ⟨name, false, empty, columns⟩ members)).result := by
  induction members generalizing filled target with
  | nil => rfl
  | cons member members ih =>
      rcases member with ⟨key, value⟩
      cases hfind : find? ⟨name, false, empty, columns⟩ key with
      | none =>
          have hskipped : find? ⟨name, true, empty, columns⟩ key = none := hfind
          rw [declared_cons_of_unknown (find?_eq_none_iff.mp hfind), fillAll, hskipped]
          exact ih filled target
      | some slot =>
          have hfound : find? ⟨name, true, empty, columns⟩ key = some slot := hfind
          rw [declared_cons_of_resolves (resolves_of_find? hfind), fillAll, fillAll, hfind, hfound]
          apply Outcome.result_bind_congr
          intro next _
          exact ih (slot :: filled) next

theorem fillAll_lenient_eq (filled : List (Fin columns.length)) (target : τ) (members : Members)
    (hknown : forall table key : String,
      (fillAll ⟨name, false, empty, columns⟩ context filled target members).result ≠
        .error (.unknownField table key)) :
    fillAll ⟨name, true, empty, columns⟩ context filled target members =
      fillAll ⟨name, false, empty, columns⟩ context filled target members := by
  induction members generalizing filled target with
  | nil => rfl
  | cons member members ih =>
      rcases member with ⟨key, value⟩
      cases hfind : find? ⟨name, false, empty, columns⟩ key with
      | none =>
          apply absurd _ (hknown name key)
          rw [fillAll, hfind]
          rfl
      | some slot =>
          have hfound : find? ⟨name, true, empty, columns⟩ key = some slot := hfind
          rw [fillAll, fillAll, hfind, hfound]
          apply Outcome.bind_congr
          intro next hnext
          apply ih
          intro table other hunknown
          apply hknown table other
          rw [fillAll, hfind]
          exact (Outcome.result_bind_of_ok hnext).trans hunknown

end

/-!
# Whole values
-/

section

variable {name : String} {empty : τ} {columns : List (Column τ κ)} (context : κ)

theorem result_read_lenient_object (members : Members) :
    (read ⟨name, true, empty, columns⟩ (.object members) context).result =
      (read ⟨name, false, empty, columns⟩
        (.object (declared ⟨name, false, empty, columns⟩ members)) context).result := by
  rw [result_read_object, result_read_object]
  exact result_fillAll_lenient [] empty members

theorem read_lenient_eq (value : Value)
    (hknown : forall table key : String,
      (read ⟨name, false, empty, columns⟩ value context).result ≠
        .error (.unknownField table key)) :
    read ⟨name, true, empty, columns⟩ value context =
      read ⟨name, false, empty, columns⟩ value context := by
  cases value with
  | object members =>
      rw [result_read_object] at hknown
      apply Outcome.bind_congr
      intro _ _
      exact fillAll_lenient_eq [] empty members hknown
  | _ => rfl

end

theorem Breaks.ne_unknownField {table : Table τ κ} (hlenient : table.lenient = true)
    {before : Members} {key : String} {value : Value} {e : Error}
    (h : Breaks table context before key value e) (other unknown : String) :
    e ≠ .unknownField other unknown := by
  intro heq
  cases h with
  | unknownField _ hstrict =>
      rw [hlenient] at hstrict
      cases hstrict
  | duplicate _ _ _ => cases heq
  | otherShape _ _ _ => cases heq
  | conversion _ _ _ _ => cases heq

theorem result_read_ne_unknownField {table : Table τ κ} (hun : table.Unambiguous)
    (hlenient : table.lenient = true) (value : Value) (context : κ) (other unknown : String) :
    (table.read value context).result ≠ .error (.unknownField other unknown) := by
  intro hread
  cases value with
  | object members =>
      rcases (result_read_eq_error_iff hun).mp hread with ⟨_, _, _, _, _, _, hbreaks⟩
      exact hbreaks.ne_unknownField hlenient other unknown rfl
  | _ => cases hread

/-- The same columns can be declared in a lenient table and in a strict one. The lenient table reads
an object to what the strict one reads its declared members to, or finds the same error in them.
What the strict table reads, or refuses with an error other than an unknown field, the lenient one
reads or refuses alike, and tells the same of it. It never finds an unknown field itself. -/
theorem lenient_reads_declared (name : String) (empty : τ) (columns : List (Column τ κ)) :
    ((exists strict : Table τ κ,
        (Table.new name false empty).declareAll columns = .ok strict) <->
      exists lenient : Table τ κ,
        (Table.new name true empty).declareAll columns = .ok lenient) ∧
    forall strict lenient : Table τ κ,
      (Table.new name false empty).declareAll columns = .ok strict ->
        (Table.new name true empty).declareAll columns = .ok lenient ->
          forall context : κ,
            (forall members : Members,
              (lenient.read (.object members) context).result =
                (strict.read (.object (strict.declared members)) context).result) ∧
            (forall value : Value,
              (forall table key : String,
                (strict.read value context).result ≠ .error (.unknownField table key)) ->
                  lenient.read value context = strict.read value context) ∧
            forall (value : Value) (table key : String),
              (lenient.read value context).result ≠ .error (.unknownField table key) := by
  constructor
  · -- No spelling may be declared twice in either of them.
    rw [exists_declareAll_new_iff, exists_declareAll_new_iff]
    exact Iff.rfl
  · intro strict lenient hstrict hlenient context
    rcases declareAll_new_eq_ok_iff.mp hstrict with ⟨_, rfl⟩
    rcases declareAll_new_eq_ok_iff.mp hlenient with ⟨hun, rfl⟩
    refine ⟨result_read_lenient_object context, read_lenient_eq context, ?_⟩
    intro value table key
    exact result_read_ne_unknownField hun rfl value context table key

def sized : List (Column (List Int64) Unit) :=
  [ ⟨.named "size", .long fun ns n => ns ++ [n]⟩,
    ⟨.named "parent",
      .object (read ⟨"parent", false, [], [⟨.named "size", .long fun ns n => ns ++ [n]⟩]⟩)
        fun ns nested => ns ++ nested⟩ ]

def strangeParent : String × Value :=
  ("parent", .object [("size", .string "3"), ("age", .long 7)])

/-- Members that are unknown to a node are skipped, wherever they stand. The one that is unknown to
its parent is an error, in the lenient table as in the strict one. -/
theorem lenient_reads_declared_sized :
    ((Table.new "node" false []).declareAll sized = .ok ⟨"node", false, [], sized⟩ ∧
      (Table.new "node" true []).declareAll sized = .ok ⟨"node", true, [], sized⟩) ∧
    (read ⟨"node", true, [], sized⟩
        (.object [("x", .null), ("size", .long 5), ("y", .array []), strangeParent]) ()).result =
      .error ((Objection.nested (.unknownField "parent" "age")).error "node" (.named "parent")) ∧
    read ⟨"node", true, [], sized⟩ (.object [strangeParent, ("x", .null)]) () =
      read ⟨"node", false, [], sized⟩ (.object [strangeParent, ("x", .null)]) () ∧
    forall table key : String,
      (read ⟨"node", true, [], sized⟩ (.object [strangeParent, ("x", .null)]) ()).result ≠
        .error (.unknownField table key) := by
  have hstrict :
      (Table.new "node" false []).declareAll sized = .ok ⟨"node", false, [], sized⟩ := rfl
  have hlenient : (Table.new "node" true []).declareAll sized = .ok ⟨"node", true, [], sized⟩ := rfl
  rcases (lenient_reads_declared "node" [] sized).right _ _ hstrict hlenient () with
    ⟨hdeclared, hknown, hnever⟩
  refine ⟨⟨hstrict, hlenient⟩, ?_, ?_, hnever _⟩
  · exact (hdeclared _).trans rfl
  · apply hknown
    intro table key hunknown
    cases hunknown

end Table
end JsonBind
