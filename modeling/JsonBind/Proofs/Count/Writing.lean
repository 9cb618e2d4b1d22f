import JsonBind.Proofs.Builder.Array
import JsonBind.Proofs.Builder.RoundTrip
import JsonBind.Proofs.Count.Tree

/-!
# Writing count records and responses

Where a builder has room for a value, writing a record or a response comes to the
same as putting its tree. So the text of one is the text of its tree.
-/

namespace JsonBind

open Builder (HasRoom Puts)

namespace Count

theorem Record.run_writeColumn (field : Field) (column : Option Value) (members : Members)
    (h : field.name ∉ members.names) (outer : List Scope) (root : Option Value) :
    (writeColumn field column).run ⟨.object members none :: outer, root⟩ =
      .ok () ⟨.object (members ++ Members.optional field.name column) none :: outer, root⟩ := by
  cases column with
  | none =>
      rw [Members.optional, Option.map_none, Option.toList_none, List.append_nil]
      rfl
  | some value =>
      refine (Builder.run_bind_of_ok (Builder.Piece.write_of_step .field)).trans ?_
      refine (Builder.place_of_hasRoom .member value).trans ?_
      rw [Builder.put, Members.insert_of_not_mem h]
      rfl

theorem Record.puts_write (record : Record) : Puts record.write (struct.toTree record) := by
  have hepoch : epochField.name ∉ Members.names [] := List.not_mem_nil
  have htimestamp : timestampField.name ∉ Members.names
      ([] ++ Members.optional epochField.name (record.epoch.map Value.long)) := by
    intro hmem
    exact absurd (Members.eq_of_mem_names_optional hmem) (by decide)
  have hcount : countField.name ∉ Members.names
      ([] ++ Members.optional epochField.name (record.epoch.map Value.long) ++
        Members.optional timestampField.name (record.timestamp.map Value.string)) := by
    intro hmem
    rw [Members.names, List.map_append] at hmem
    rcases List.mem_append.mp hmem with hmem | hmem
    · exact absurd (Members.eq_of_mem_names_optional hmem) (by decide)
    · exact absurd (Members.eq_of_mem_names_optional hmem) (by decide)
  intro b room
  refine (Builder.run_bind_of_ok (Builder.Piece.write_of_step (.openObject room))).trans ?_
  refine (Builder.run_bind_of_ok (run_writeColumn epochField _ _ hepoch _ _)).trans ?_
  refine (Builder.run_bind_of_ok (run_writeColumn timestampField _ _ htimestamp _ _)).trans ?_
  refine (Builder.run_bind_of_ok (run_writeColumn countField _ _ hcount _ _)).trans ?_
  refine (Builder.Piece.write_of_step (.closeObject room)).trans ?_
  rw [toTree_eq, List.append_assoc, List.nil_append, List.append_nil]
  rfl

theorem Response.run_writeRecords (layout : Layout) (records : Option (List Record))
    (outer : List Scope) (root : Option Value) :
    (writeRecords layout records).run ⟨.object [] none :: outer, root⟩ =
      .ok () ⟨.object (Members.optional recordsField.name
        (records.map fun records => .array (records.map Record.struct.toTree))) none :: outer,
          root⟩ := by
  cases records with
  | none => rfl
  | some records =>
      refine Builder.run_array_of_appends ?_ recordsField.name [] outer root
      refine List.forall₂_map_left_iff.mpr (List.forall₂_map_right_iff.mpr ?_)
      refine List.forall₂_same.mpr ?_
      intro record _
      exact (Record.puts_write record).appends

theorem Response.puts_write (layout : Layout) (response : Response) :
    Puts (response.write layout) (struct.toTree response) := by
  intro b room
  refine (Builder.run_bind_of_ok (Builder.Piece.write_of_step (.openObject room))).trans ?_
  refine (Builder.run_bind_of_ok (run_writeRecords layout response.records _ _)).trans ?_
  refine (Builder.Piece.write_of_step (.closeObject room)).trans ?_
  rw [toTree_eq, List.append_nil]
  rfl

end Count

/-!
# Texts
-/

namespace Model

variable {α : Type} [Model α]

theorem build_of_puts {layout : Layout} {a : α} {v : Value} (h : Puts (write layout a) v) :
    build layout a = .ok ⟨[], some v⟩ := by
  unfold build
  rw [h .empty .root]
  rfl

theorem toText_of_puts {layout : Layout} {a : α} {v : Value} (h : Puts (write layout a) v) :
    toText layout a = .ok (v.text layout) := by
  have hfinish : Builder.finish ⟨[], some v⟩ = .ok v := rfl
  unfold toText
  rw [build_of_puts h]
  exact Builder.text_of_finish hfinish layout

end Model
end JsonBind
