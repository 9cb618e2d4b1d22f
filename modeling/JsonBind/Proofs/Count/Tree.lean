import JsonBind.Count.Response
import JsonBind.Proofs.Table.Reading
import JsonBind.Proofs.Struct.Written

/-!
# Trees of count records and responses

The tree of a record has a member for each column that is set, and the tree of a
response one for its records. Both the tables and the record types read such a
tree back.
-/

namespace JsonBind

variable {α σ τ κ : Type}

theorem Slot.longOf_long (n : Int64) : longOf (Value.long n) = .ok n := by
  have hlong : (Number.ofLong n).long? = some n := Value.long?_long n
  unfold longOf Value.long
  simp only [hlong]

theorem Slot.ofTree_long (name : String) (spellings : List String) (get : σ -> Option Int64)
    (set : Int64 -> σ -> σ) (n : Int64) :
    (long name spellings get set).ofTree (Value.long n) = .ok (set n) := by
  show (longOf (Value.long n)).map set = .ok (set n)
  rw [longOf_long]
  rfl

theorem Slot.ofTree_string (name : String) (spellings : List String)
    (get : σ -> Option String) (set : String -> σ -> σ) (text : String) :
    (string name spellings get set).ofTree (.string text) = .ok (set text) := rfl

/-!
# Members that may be left out
-/

theorem Table.fillAll_optional {table : Table τ κ} {context : κ} {name : String}
    {slot : table.Index} (hfind : table.find? name = some slot) {encode : α -> Value}
    {set : α -> τ -> τ}
    (hshape : forall a : α, (table.columns.get slot).binding.shape.accepts (encode a) = true)
    (hset : forall a : α, (table.columns.get slot).binding.Converts context (encode a) (set a))
    {filled : List table.Index} (hfresh : slot ∉ filled) (a? : Option α) (target : τ)
    (rest : Members) :
    exists filled' : List table.Index,
      (forall other : table.Index, other ∈ filled' -> other = slot ∨ other ∈ filled) ∧
        (table.fillAll context filled target
            (Members.optional name (a?.map encode) ++ rest)).result =
          (table.fillAll context filled' (a?.elim target fun a => set a target) rest).result := by
  cases a? with
  | none => exact ⟨filled, fun other hother => Or.inr hother, rfl⟩
  | some a =>
      refine ⟨slot :: filled, fun other hother => List.mem_cons.mp hother, ?_⟩
      exact fillAll_cons_of_converts hfind hfresh (hshape a) (hset a) target rest

theorem Struct.ofMembers_optional {struct : Struct σ} {name : String} {slot : struct.Index}
    (hslot : struct.slot? name = some slot) {encode : α -> Value} {set : α -> σ -> σ}
    (hset : forall a : α, (struct.slots.get slot).ofTree (encode a) = .ok (set a))
    {filled : List struct.Index} (hfresh : slot ∉ filled) (a? : Option α) (record : σ)
    (rest : Members) :
    exists filled' : List struct.Index,
      (forall other : struct.Index, other ∈ filled' -> other = slot ∨ other ∈ filled) ∧
        struct.ofMembers filled record (Members.optional name (a?.map encode) ++ rest) =
          struct.ofMembers filled' (a?.elim record fun a => set a record) rest := by
  cases a? with
  | none => exact ⟨filled, fun other hother => Or.inr hother, rfl⟩
  | some a =>
      refine ⟨slot :: filled, fun other hother => List.mem_cons.mp hother, ?_⟩
      have hopen : struct.open? filled name = .ok slot := by
        unfold open?
        rw [hslot]
        exact if_neg hfresh
      show struct.ofMembers filled record ((name, encode a) :: rest) = _
      rw [ofMembers, hopen]
      show ((struct.slots.get slot).ofTree (encode a) >>= _) = _
      rw [hset a]
      rfl

theorem Struct.listOf_toTree {struct : Struct σ}
    (h : forall record : σ, struct.ofTree (struct.toTree record) = .ok record)
    (records : List σ) :
    struct.listOf (.array (records.map struct.toTree)) = .ok records := by
  show (records.map struct.toTree).mapM struct.ofTree = .ok records
  induction records with
  | nil => rfl
  | cons record records ih =>
      rw [List.map_cons, List.mapM_cons, h record, ih]
      rfl

theorem Reader.Fits.of_mem_optional {levels : Nat} {name : String} {encode : α -> Value}
    (h : forall a : α, Fits levels (encode a)) {a? : Option α} {member : String × Value}
    (hmem : member ∈ Members.optional name (a?.map encode)) : Fits levels member.2 := by
  cases a? with
  | none => cases hmem
  | some a =>
      cases List.mem_singleton.mp hmem
      exact h a

namespace Count

/-!
# Records
-/

namespace Record

theorem toTree_eq (record : Record) :
    struct.toTree record =
      .object (Members.optional "epoch" (record.epoch.map Value.long) ++
        (Members.optional "timestamp" (record.timestamp.map Value.string) ++
          (Members.optional "count" (record.count.map Value.long) ++ []))) := by
  rcases record with ⟨_ | epoch, _ | timestamp, _ | count⟩ <;> rfl

theorem result_read_toTree (record : Record) :
    (table.read (struct.toTree record) ()).result = .ok record := by
  have hlong : forall (set : Record -> Int64 -> Record) (n : Int64),
      (Binding.long set).Converts () (Value.long n) (set · n) :=
    fun set n => .long set (Value.long?_long n)
  rw [toTree_eq, Table.result_read_object]
  rcases Table.fillAll_optional (show table.find? "epoch" = some ⟨0, by decide⟩ from rfl)
    (fun _ => rfl) (fun epoch => hlong _ epoch) List.not_mem_nil record.epoch table.empty _ with
    ⟨first, hfirst, heq⟩
  rw [heq]
  rcases Table.fillAll_optional (show table.find? "timestamp" = some ⟨1, by decide⟩ from rfl)
    (fun _ => rfl) (fun timestamp => .string _ timestamp)
    (fun hmem => by rcases hfirst _ hmem with h | h <;> cases h) record.timestamp _ _ with
    ⟨second, hsecond, heq⟩
  rw [heq]
  rcases Table.fillAll_optional (show table.find? "count" = some ⟨2, by decide⟩ from rfl)
    (fun _ => rfl) (fun count => hlong _ count)
    (fun hmem => by
      rcases hsecond _ hmem with h | hmem
      · cases h
      · rcases hfirst _ hmem with h | h <;> cases h) record.count _ _ with
    ⟨third, _, heq⟩
  rw [heq]
  rcases record with ⟨_ | epoch, _ | timestamp, _ | count⟩ <;> rfl

theorem ofTree_toTree (record : Record) : struct.ofTree (struct.toTree record) = .ok record := by
  rw [toTree_eq]
  show struct.ofMembers [] struct.empty _ = _
  rcases Struct.ofMembers_optional (show struct.slot? "epoch" = some ⟨0, by decide⟩ from rfl)
    (fun epoch => Slot.ofTree_long _ _ _ _ epoch) List.not_mem_nil record.epoch struct.empty _
    with ⟨first, hfirst, heq⟩
  rw [heq]
  rcases Struct.ofMembers_optional (show struct.slot? "timestamp" = some ⟨1, by decide⟩ from rfl)
    (fun timestamp => Slot.ofTree_string _ _ _ _ timestamp)
    (fun hmem => by rcases hfirst _ hmem with h | h <;> cases h) record.timestamp _ _ with
    ⟨second, hsecond, heq⟩
  rw [heq]
  rcases Struct.ofMembers_optional (show struct.slot? "count" = some ⟨2, by decide⟩ from rfl)
    (fun count => Slot.ofTree_long _ _ _ _ count)
    (fun hmem => by
      rcases hsecond _ hmem with h | hmem
      · cases h
      · rcases hfirst _ hmem with h | h <;> cases h) record.count _ _ with
    ⟨third, _, heq⟩
  rw [heq]
  rcases record with ⟨_ | epoch, _ | timestamp, _ | count⟩ <;> rfl

theorem isObject_toTree (record : Record) : (struct.toTree record).isObject = true := rfl

theorem fits_toTree (record : Record) (levels : Nat) :
    Reader.Fits (levels + 1) (struct.toTree record) := by
  rw [toTree_eq]
  refine Reader.Fits.object ?_ ?_
  · rcases record with ⟨_ | epoch, _ | timestamp, _ | count⟩ <;>
      simp [Members.names, Members.optional]
  · intro member hmem
    rcases List.mem_append.mp hmem with hepoch | hmem
    · exact Reader.Fits.of_mem_optional (fun epoch => Reader.Fits.int levels _) hepoch
    · rcases List.mem_append.mp hmem with htimestamp | hmem
      · exact Reader.Fits.of_mem_optional (Reader.Fits.string levels) htimestamp
      · rw [List.append_nil] at hmem
        exact Reader.Fits.of_mem_optional (fun count => Reader.Fits.int levels _) hmem

theorem faithful : struct.Faithful := by
  intro slot hslot
  simp only [struct, List.mem_cons, List.not_mem_nil, or_false] at hslot
  rcases hslot with rfl | rfl | rfl
  · exact Slot.faithful_long _ _ _ _
  · exact Slot.faithful_string _ _ _ _
  · exact Slot.faithful_long _ _ _ _

end Record

/-!
# Responses
-/

namespace Response

theorem toTree_eq (response : Response) :
    struct.toTree response =
      .object (Members.optional "records"
        (response.records.map fun records => .array (records.map Record.struct.toTree)) ++ []) := by
  rcases response with ⟨_ | records⟩ <;> rfl

theorem result_read_toTree (response : Response) :
    (table.read (struct.toTree response) ()).result = .ok response := by
  have hitems : forall records : List Record,
      ItemsConvert Record.table.read () (records.map Record.struct.toTree) records := by
    intro records
    refine List.forall₂_map_left_iff.mpr (List.forall₂_same.mpr ?_)
    intro record _
    exact ⟨Record.isObject_toTree record, Record.result_read_toTree record⟩
  rw [toTree_eq, Table.result_read_object]
  rcases Table.fillAll_optional (show table.find? "records" = some ⟨0, by decide⟩ from rfl)
    (fun _ => rfl) (fun records => .objectArray _ (hitems records)) List.not_mem_nil
    response.records table.empty _ with ⟨filled, _, heq⟩
  rw [heq]
  rcases response with ⟨_ | records⟩ <;> rfl

theorem ofTree_toTree (response : Response) :
    struct.ofTree (struct.toTree response) = .ok response := by
  have hlist : forall (set : List Record -> Response -> Response) (records : List Record),
      (Record.struct.listOf (.array (records.map Record.struct.toTree))).map set =
        .ok (set records) := by
    intro set records
    rw [Struct.listOf_toTree Record.ofTree_toTree]
    rfl
  rw [toTree_eq]
  show struct.ofMembers [] struct.empty _ = _
  rcases Struct.ofMembers_optional (show struct.slot? "records" = some ⟨0, by decide⟩ from rfl)
    (fun records => hlist _ records) List.not_mem_nil response.records struct.empty _ with
    ⟨filled, _, heq⟩
  rw [heq]
  rcases response with ⟨_ | records⟩ <;> rfl

theorem fits_toTree (response : Response) (levels : Nat) :
    Reader.Fits (levels + 3) (struct.toTree response) := by
  rw [toTree_eq]
  refine Reader.Fits.object ?_ ?_
  · rcases response with ⟨_ | records⟩ <;> simp [Members.names, Members.optional]
  · intro member hmem
    rw [List.append_nil] at hmem
    refine Reader.Fits.of_mem_optional (fun records => Reader.Fits.array ?_) hmem
    intro item hitem
    rcases List.mem_map.mp hitem with ⟨record, _, rfl⟩
    exact Record.fits_toTree record levels

theorem faithful : struct.Faithful := by
  intro slot hslot
  cases List.mem_singleton.mp hslot
  exact Slot.faithful_list Record.faithful _ _ _ _

end Response
end Count
end JsonBind
