import JsonBind.Count.Text
import JsonBind.Proofs.Count.Writing
import JsonBind.Proofs.Sink
import JsonBind.Proofs.Text.Compact

/-!
# Documents of counts, written in two ways

What a record or a response writes into a builder is the document of its record type,
and its compact text is the one written field by field. Nothing that is written into the
builder is refused.
-/

namespace JsonBind

open Builder (Puts)
open Text (Writes WritesMember)

variable {α : Type}

/-!
# Field by field
-/

namespace Count

theorem writesMember_optional {name : String} {value : α -> Text.Part} {encode : α -> Value}
    (h : forall a : α, Writes (value a) (encode a)) (a? : Option α) :
    List.Forall₂ WritesMember (Text.optionalPart name (a?.map value))
      (Members.optional name (a?.map encode)) := by
  cases a? with
  | none => exact .nil
  | some a => exact .cons ⟨value a, rfl, h a⟩ .nil

theorem writes_long (n : Int64) : Writes (Text.longPart n) (.long n) := by
  intro level rest
  unfold Value.long
  rw [Value.textAppend]
  rfl

theorem Record.writes_part (record : Record) : Writes record.part (struct.toTree record) := by
  rw [toTree_eq, List.append_nil]
  apply Text.writes_object
  apply List.rel_append (writesMember_optional writes_long record.epoch)
  apply List.rel_append (writesMember_optional Text.writes_string record.timestamp)
  exact writesMember_optional writes_long record.count

theorem Response.writes_part (response : Response) :
    Writes response.part (struct.toTree response) := by
  have hrecords : forall records : List Record,
      Writes (Text.arrayPart (records.map Record.part))
        (.array (records.map Record.struct.toTree)) := by
    intro records
    apply Text.writes_array
    apply List.forall₂_map_left_iff.mpr
    apply List.forall₂_map_right_iff.mpr
    exact List.forall₂_same.mpr fun record _ => Record.writes_part record
  rw [toTree_eq, List.append_nil]
  exact Text.writes_object (writesMember_optional hrecords response.records)

end Count

/-!
# Through a builder
-/

namespace Model

variable [Model α]

theorem toTree_of_puts {a : α} {v : Value} (h : Puts (write .compact a) v) :
    toTree a = .ok v := by
  unfold toTree
  rw [build_of_puts h]
  rfl

theorem toSink_of_puts {layout : Layout} {a : α} {v : Value} (h : Puts (write layout a) v)
    {sink : Sink} (hroom : sink.room = none) :
    toSink layout a sink =
      (.ok (), { sink with taken := sink.taken ++ (Utf8.encode (v.text layout)).toArray }) := by
  unfold toSink
  rw [build_of_puts h]
  show Builder.writeTo ⟨[], some v⟩ layout sink = _
  unfold Builder.writeTo Builder.finish
  simp only [Sink.offer_of_room_eq_none hroom]
  rfl

theorem documents_of_puts {a : α} {v : Value} (h : Puts (write .compact a) v) {text : String}
    (htext : text = v.text .compact) (refusal : Refusal) :
    toTree a = .ok v ∧ toText .compact a = .ok text ∧
      toSink .compact a (.new none refusal) =
        (.ok (), ⟨none, refusal, (Utf8.encode text).toArray⟩) := by
  constructor
  · exact toTree_of_puts h
  · constructor
    · rw [htext]
      exact toText_of_puts h
    · rw [htext, toSink_of_puts h rfl]
      simp [Sink.new]

end Model

namespace Count

/-- A builder gives the document of the record type, with the same keys in the same order. Its
compact text, the bytes that go to a sink without a limit, and the text written field by field
are the same. -/
theorem documents_agree (refusal : Refusal) :
    (forall record : Record,
      Model.toTree record = .ok (Record.struct.toTree record) ∧
        Model.toText .compact record = .ok record.compactText ∧
        Model.toSink .compact record (.new none refusal) =
          (.ok (), ⟨none, refusal, (Utf8.encode record.compactText).toArray⟩)) ∧
    forall response : Response,
      Model.toTree response = .ok (Response.struct.toTree response) ∧
        Model.toText .compact response = .ok response.compactText ∧
        Model.toSink .compact response (.new none refusal) =
          (.ok (), ⟨none, refusal, (Utf8.encode response.compactText).toArray⟩) := by
  constructor
  · intro record
    exact Model.documents_of_puts record.puts_write record.writes_part.text refusal
  · intro response
    exact Model.documents_of_puts (response.puts_write .compact) response.writes_part.text refusal

end Count
end JsonBind
