import JsonBind.Proofs.Count.Documents
import JsonBind.Proofs.Count.Variation
import JsonBind.Proofs.Table.Canonical

/-!
# Canonical documents of counts

Every object that can be read as a record or a response has one canonical form: its
fields under their names and in the order of their columns, integers as numbers, texts
as they are. This is the document of what was read, so nothing of the object is lost,
and the canonical form is read to the same.
-/

namespace JsonBind
namespace Count

namespace Record

inductive Canonical : Value -> Value -> Prop where
  | object {members epochs timestamps counts : Members} :
      epochField.Kept Value.CanonicalLong members epochs ->
      timestampField.Kept Eq members timestamps ->
      countField.Kept Value.CanonicalLong members counts ->
      Canonical (.object members) (.object (epochs ++ (timestamps ++ counts)))

theorem Canonical.rightUnique : Relator.RightUnique Canonical := by
  have hlong : forall field : Field, Relator.RightUnique (field.Kept Value.CanonicalLong) :=
    fun field => Field.Kept.rightUnique Value.CanonicalLong.rightUnique
  have hequal : Relator.RightUnique (timestampField.Kept Eq) :=
    Field.Kept.rightUnique fun v w w' h h' => h.symm.trans h'
  intro v w w' h h'
  cases h with
  | object hepochs htimestamps hcounts =>
      cases h' with
      | object hepochs' htimestamps' hcounts' =>
          rw [hlong _ hepochs hepochs', hequal htimestamps htimestamps', hlong _ hcounts hcounts']

/-!
# Columns of records
-/

def epochSlot : table.Index :=
  (0 : Fin 3)

def timestampSlot : table.Index :=
  (1 : Fin 3)

def countSlot : table.Index :=
  (2 : Fin 3)

theorem index_cases (slot : table.Index) :
    slot = epochSlot ∨ slot = timestampSlot ∨ slot = countSlot :=
  match slot with
  | ⟨0, _⟩ => Or.inl rfl
  | ⟨1, _⟩ => Or.inr (Or.inl rfl)
  | ⟨2, _⟩ => Or.inr (Or.inr rfl)

theorem stores_epoch :
    table.Stores () epochSlot Value.CanonicalLong (·.epoch.map Value.long) where
  empty := rfl
  sets := by
    intro v set hset target
    cases hset with
    | long _ hlong => exact ⟨_, Value.canonicalLong_of_long? hlong, rfl⟩
  keeps := by
    intro other v set hne hset target
    rcases index_cases other with rfl | rfl | rfl
    · exact absurd rfl hne
    · cases hset
      rfl
    · cases hset
      rfl

theorem stores_timestamp :
    table.Stores () timestampSlot Eq (·.timestamp.map Value.string) where
  empty := rfl
  sets := by
    intro v set hset target
    cases hset with
    | string _ text => exact ⟨_, rfl, rfl⟩
  keeps := by
    intro other v set hne hset target
    rcases index_cases other with rfl | rfl | rfl
    · cases hset
      rfl
    · exact absurd rfl hne
    · cases hset
      rfl

theorem stores_count :
    table.Stores () countSlot Value.CanonicalLong (·.count.map Value.long) where
  empty := rfl
  sets := by
    intro v set hset target
    cases hset with
    | long _ hlong => exact ⟨_, Value.canonicalLong_of_long? hlong, rfl⟩
  keeps := by
    intro other v set hne hset target
    rcases index_cases other with rfl | rfl | rfl
    · cases hset
      rfl
    · cases hset
      rfl
    · exact absurd rfl hne

theorem canonical_of_read {v : Value} {record : Record}
    (h : (table.read v ()).result = .ok record) : Canonical v (struct.toTree record) := by
  rcases Table.isObject_of_result_read h with ⟨members, rfl⟩
  rw [toTree_eq, List.append_nil]
  exact .object (stores_epoch.kept_of_read unambiguous h)
    (stores_timestamp.kept_of_read unambiguous h) (stores_count.kept_of_read unambiguous h)

end Record

namespace Response

inductive CanonicalRecords : Value -> Value -> Prop where
  | array {items items' : List Value} :
      List.Forall₂ Record.Canonical items items' ->
      CanonicalRecords (.array items) (.array items')

inductive Canonical : Value -> Value -> Prop where
  | object {members records : Members} :
      recordsField.Kept CanonicalRecords members records ->
      Canonical (.object members) (.object records)

theorem CanonicalRecords.rightUnique : Relator.RightUnique CanonicalRecords := by
  intro v w w' h h'
  cases h with
  | array hitems =>
      cases h' with
      | array hitems' =>
          rw [List.right_unique_forall₂' Record.Canonical.rightUnique hitems hitems']

theorem Canonical.rightUnique : Relator.RightUnique Canonical := by
  intro v w w' h h'
  cases h with
  | object hrecords =>
      cases h' with
      | object hrecords' =>
          rw [Field.Kept.rightUnique CanonicalRecords.rightUnique hrecords hrecords']

theorem canonicalRecords_of_convert {items : List Value} {records : List Record}
    (h : ItemsConvert Record.table.read () items records) :
    CanonicalRecords (.array items) (.array (records.map Record.struct.toTree)) := by
  apply CanonicalRecords.array
  apply List.forall₂_map_right_iff.mpr
  exact h.imp fun _ _ hitem => Record.canonical_of_read hitem.right

def recordsSlot : table.Index :=
  (0 : Fin 1)

theorem stores_records :
    table.Stores () recordsSlot CanonicalRecords
      (·.records.map fun records => .array (records.map Record.struct.toTree)) where
  empty := rfl
  sets := by
    intro v set hset target
    cases hset with
    | objectArray _ hitems => exact ⟨_, canonicalRecords_of_convert hitems, rfl⟩
  keeps := by
    intro other v set hne _ _
    exact absurd (Fin.fin_one_eq_zero other) hne

theorem canonical_of_read {v : Value} {response : Response}
    (h : (table.read v ()).result = .ok response) : Canonical v (struct.toTree response) := by
  rcases Table.isObject_of_result_read h with ⟨members, rfl⟩
  rw [toTree_eq, List.append_nil]
  exact .object (stores_records.kept_of_read unambiguous h)

end Response

/-!
# Reading and writing
-/

theorem iff_eq_of_rightUnique {canonical : Value -> Value -> Prop}
    (hunique : Relator.RightUnique canonical) {v w : Value} (h : canonical v w) (w' : Value) :
    canonical v w' <-> w' = w := by
  constructor
  · intro h'
    exact hunique h' h
  · intro heq
    rw [heq]
    exact h

/-- Every record is written as a document that is read to it again; and of each value that is read
to it, this document is the canonical form, the only one. The same holds of responses. -/
theorem toTree_of_read_canonical :
    (forall record : Record, exists w : Value,
      Model.toTree record = .ok w ∧ (Record.table.read w ()).result = .ok record ∧
        forall v : Value, (Record.table.read v ()).result = .ok record ->
          forall w' : Value, Record.Canonical v w' <-> w' = w) ∧
    forall response : Response, exists w : Value,
      Model.toTree response = .ok w ∧ (Response.table.read w ()).result = .ok response ∧
        forall v : Value, (Response.table.read v ()).result = .ok response ->
          forall w' : Value, Response.Canonical v w' <-> w' = w := by
  constructor
  · intro record
    refine ⟨Record.struct.toTree record, Model.toTree_of_puts record.puts_write,
      record.result_read_toTree, ?_⟩
    intro v hread
    exact iff_eq_of_rightUnique Record.Canonical.rightUnique (Record.canonical_of_read hread)
  · intro response
    refine ⟨Response.struct.toTree response, Model.toTree_of_puts (response.puts_write .compact),
      response.result_read_toTree, ?_⟩
    intro v hread
    exact iff_eq_of_rightUnique Response.Canonical.rightUnique (Response.canonical_of_read hread)

def padded : Value :=
  .object [("dc", .string " +0012 "), ("t", .long 7)]

theorem toTree_of_read_canonical_padded :
    (Record.table.read padded ()).result = .ok ⟨some 7, none, some 12⟩ ∧
      Record.Canonical padded (.object [("epoch", .long 7), ("count", .long 12)]) ∧
      (Response.table.read (.object [("records", .array [padded, .object []])]) ()).result =
        .ok ⟨some [⟨some 7, none, some 12⟩, Record.empty]⟩ ∧
      Response.Canonical (.object [("records", .array [padded, .object []])])
        (.object [("records", .array
          [.object [("epoch", .long 7), ("count", .long 12)], .object []])]) := by
  have hrecord : (Record.table.read padded ()).result = .ok ⟨some 7, none, some 12⟩ := rfl
  have hresponse : (Response.table.read (.object [("records", .array [padded, .object []])])
      ()).result = .ok ⟨some [⟨some 7, none, some 12⟩, Record.empty]⟩ := rfl
  rcases toTree_of_read_canonical.left ⟨some 7, none, some 12⟩ with ⟨w, htree, _, hcanonical⟩
  cases htree
  rcases toTree_of_read_canonical.right ⟨some [⟨some 7, none, some 12⟩, Record.empty]⟩ with
    ⟨w, htree, _, hcanonical'⟩
  cases htree
  exact ⟨hrecord, (hcanonical padded hrecord _).mpr rfl, hresponse,
    (hcanonical' _ hresponse _).mpr rfl⟩

end Count
end JsonBind
