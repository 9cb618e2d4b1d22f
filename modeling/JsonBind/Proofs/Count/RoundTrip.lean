import JsonBind.Proofs.Count.Writing

/-!
# Texts of count records and responses read back

What a record or a response writes in either layout, the model reads back by way of
a tree, and the record type straight from the text. Nothing is asked of what it
holds.
-/

namespace JsonBind

variable {α : Type} [Model α]

theorem Model.result_ofText_text {v : Value} (hfits : Reader.Fits 3 v) {a : α}
    (h : (read ⟨v⟩ : Outcome α).result = .ok a) (layout : Layout) :
    (ofText (v.text layout) : Outcome α).result = .ok a := by
  have hdocument : Document.ofText .default (v.text layout) = .ok ⟨v⟩ :=
    Document.ofText_text rfl (hfits.mono (by decide)) (Nat.le_trans hfits.depth (by decide)) layout
  unfold ofText
  rw [hdocument]
  exact (Outcome.result_bind_of_ok rfl).trans h

theorem Model.exists_text_of_puts {struct : Struct α} (hfaithful : struct.Faithful) {a : α}
    {v : Value} {layout : Layout} (hputs : Builder.Puts (write layout a) v)
    (hfits : Reader.Fits 3 v) (hread : (read ⟨v⟩ : Outcome α).result = .ok a)
    (hstruct : struct.ofTree v = .ok a) :
    exists text : String, toText layout a = .ok text ∧
      (ofText text : Outcome α).result = .ok a ∧ struct.read (.ofText text) = .ok a := by
  refine ⟨v.text layout, toText_of_puts hputs, ?_, ?_⟩
  · exact result_ofText_text hfits hread layout
  · exact Struct.read_text hfaithful (hfits.mono (by decide)) hstruct layout

namespace Count

/-- Writing and reading back, for both kinds of values and by both readers. -/
theorem toText_reads_back (layout : Layout) :
    (forall response : Response, exists text : String,
      Model.toText layout response = .ok text ∧
        (Model.ofText text : Outcome Response).result = .ok response ∧
        Response.struct.read (.ofText text) = .ok response) ∧
    (forall record : Record, exists text : String,
      Model.toText layout record = .ok text ∧
        (Model.ofText text : Outcome Record).result = .ok record ∧
        Record.struct.read (.ofText text) = .ok record) := by
  constructor
  · intro response
    exact Model.exists_text_of_puts Response.faithful (Response.puts_write layout response)
      (Response.fits_toTree response 0) (Response.result_read_toTree response)
      (Response.ofTree_toTree response)
  · intro record
    exact Model.exists_text_of_puts Record.faithful (Record.puts_write record)
      (Record.fits_toTree record 2) (Record.result_read_toTree record)
      (Record.ofTree_toTree record)

end Count
end JsonBind
