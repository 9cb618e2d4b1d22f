import Mathlib.Logic.Relation
import JsonBind.Count.Response
import JsonBind.Proofs.Table.Variation

/-!
# Variations of counts

Records and responses are read the same from all variations of a value: with the members
of its objects in another order, and with other spellings of the columns in its records.
A variation is a sequence of steps, each of which changes one object only.
-/

namespace JsonBind
namespace Count

/-- Objects are reordered and keys are spelled differently, one at a time, any number of times. -/
def Varied (respells : Value -> Value -> Prop) : Value -> Value -> Prop :=
  Relation.ReflTransGen fun v w => v.Reorders w ∨ respells v w

theorem Varied.read_iff {respells : Value -> Value -> Prop} {τ : Type} {table : Table τ Unit}
    {target : τ}
    (hreorders : forall {v w : Value}, v.Reorders w ->
      ((table.read v ()).result = .ok target <-> (table.read w ()).result = .ok target))
    (hrespells : forall {v w : Value}, respells v w ->
      ((table.read v ()).result = .ok target <-> (table.read w ()).result = .ok target))
    {v w : Value} (h : Varied respells v w) :
    (table.read v ()).result = .ok target <-> (table.read w ()).result = .ok target := by
  induction h with
  | refl => exact Iff.rfl
  | tail _ hstep ih =>
      rcases hstep with hreordered | hrespelled
      · exact ih.trans (hreorders hreordered)
      · exact ih.trans (hrespells hrespelled)

namespace Record

theorem unambiguous : table.Unambiguous :=
  Table.unambiguous_of_declareAll table_declared

theorem commutes : table.Commutes () := by
  refine .cons ?_ (.cons ?_ (.cons ?_ .nil))
  · intro column hmem
    rcases List.mem_pair.mp hmem with rfl | rfl <;> rintro v w set set' ⟨⟩ ⟨⟩ <;> rfl
  · intro column hmem
    cases List.mem_singleton.mp hmem
    rintro v w set set' ⟨⟩ ⟨⟩
    rfl
  · intro column hmem
    cases hmem

theorem agrees_of_reorders {column : Column Record Unit} (hmem : column ∈ table.columns)
    {v w : Value} (h : v.Reorders w) : column.Agrees () v w := by
  have hshape : column.binding.shape ∈ [Shape.long, .string, .long] :=
    List.mem_map_of_mem (f := fun column : Column Record Unit => column.binding.shape) hmem
  have hscalar : forall shape : Shape, shape ∈ [Shape.long, .string, .long] ->
      shape ≠ .object ∧ shape ≠ .objectArray := by decide
  rcases hscalar _ hshape with ⟨hobject, harray⟩
  exact Column.agrees_of_isContainer hobject harray h.isContainer.left h.isContainer.right

theorem result_read_iff_of_reorders {record : Record} {v w : Value} (h : v.Reorders w) :
    (table.read v ()).result = .ok record <-> (table.read w ()).result = .ok record :=
  Table.result_read_iff_of_reorders unambiguous commutes
    (fun _ hmem _ _ => agrees_of_reorders hmem) h record

theorem result_read_iff_of_respells {record : Record} {v w : Value} (h : table.Respells v w) :
    (table.read v ()).result = .ok record <-> (table.read w ()).result = .ok record :=
  Table.result_read_iff_of_respells unambiguous commutes h record

end Record

namespace Response

inductive Respells : Value -> Value -> Prop where
  | record {before after : Members} {items items' : List Value} {item item' : Value} :
      Record.table.Respells item item' ->
      Respells (.object (before ++ (recordsField.name, .array (items ++ item :: items')) :: after))
        (.object (before ++ (recordsField.name, .array (items ++ item' :: items')) :: after))

theorem unambiguous : table.Unambiguous :=
  Table.unambiguous_of_declareAll table_declared

theorem commutes : table.Commutes () :=
  List.pairwise_singleton _ _

theorem result_read_iff_of_reorders {response : Response} {v w : Value} (h : v.Reorders w) :
    (table.read v ()).result = .ok response <-> (table.read w ()).result = .ok response := by
  refine Table.result_read_iff_of_reorders unambiguous commutes ?_ h response
  intro column hmem v w hvw
  cases List.mem_singleton.mp hmem
  refine Column.agrees_of_reorders setRecords ?_ hvw
  intro item item' record hitem
  exact Record.result_read_iff_of_reorders hitem

theorem result_read_iff_of_respells {response : Response} {v w : Value} (h : Respells v w) :
    (table.read v ()).result = .ok response <-> (table.read w ()).result = .ok response := by
  cases h with
  | record hitem =>
      rename_i before after items items' item item'
      refine Table.result_read_replace_iff unambiguous commutes ?_ before after response
      refine ⟨fun slot => Iff.rfl, fun slot _ => ?_⟩
      rw [List.mem_singleton.mp (List.get_mem table.columns slot)]
      exact Column.agrees_array (itemsConvert_replace_iff hitem.isObject_eq
        (fun record => Record.result_read_iff_of_respells hitem) items items')

end Response

/-- Neither the order of members nor the choice of spellings makes a difference to what is read from
a value, or to whether it is read at all. -/
theorem result_read_iff_of_varied (v w : Value) :
    (Varied Record.table.Respells v w -> forall record : Record,
        (Record.table.read v ()).result = .ok record <->
          (Record.table.read w ()).result = .ok record) ∧
      (Varied Response.Respells v w -> forall response : Response,
        (Response.table.read v ()).result = .ok response <->
          (Response.table.read w ()).result = .ok response) := by
  constructor
  · intro h record
    exact h.read_iff Record.result_read_iff_of_reorders Record.result_read_iff_of_respells
  · intro h response
    exact h.read_iff Response.result_read_iff_of_reorders Response.result_read_iff_of_respells

def timed (spelling : String) : Value :=
  .object [("epoch", .string "7"), (spelling, .string "4")]

def counted (spelling : String) : Value :=
  .object [(spelling, .string "4"), ("epoch", .string "7")]

theorem reorders_timed (spelling : String) : (timed spelling).Reorders (counted spelling) :=
  .members (List.Perm.swap _ _ [])

theorem respells_counted : Record.table.Respells (counted "count") (counted "dc") := by
  have hmem : Record.table.columns[2] ∈ Record.table.columns := List.getElem_mem _
  exact @Table.Respells.key _ _ _ [] _ _ _ _ _ hmem (by decide) (by decide) (by decide)

def wrapped (item : Value) : Value :=
  .object [(Response.recordsField.name, .array [item])]

theorem varied_wrapped {item item' : Value} (h : Varied Record.table.Respells item item') :
    Varied Response.Respells (wrapped item) (wrapped item') := by
  refine Relation.ReflTransGen.lift wrapped (fun v w hstep => ?_) _ _ h
  rcases hstep with hreordered | hrespelled
  · exact Or.inl (@Value.Reorders.member [] [] _ _ _ (@Value.Reorders.item [] [] _ _ hreordered))
  · exact Or.inr (@Response.Respells.record [] [] [] [] _ _ hrespelled)

theorem result_read_iff_of_varied_counted :
    Varied Record.table.Respells (timed "count") (counted "dc") ∧
      (Record.table.read (counted "dc") ()).result = .ok ⟨some 7, none, some 4⟩ ∧
      (Response.table.read (wrapped (counted "dc")) ()).result =
        .ok (.ofRecords [⟨some 7, none, some 4⟩]) := by
  have hvaried : Varied Record.table.Respells (timed "count") (counted "dc") :=
    .tail (.single (Or.inl (reorders_timed "count"))) (Or.inr respells_counted)
  refine ⟨hvaried, ?_, ?_⟩
  · exact ((result_read_iff_of_varied _ _).left hvaried _).mp rfl
  · exact ((result_read_iff_of_varied _ _).right (varied_wrapped hvaried) _).mp rfl

end Count
end JsonBind
