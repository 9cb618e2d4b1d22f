import JsonBind.Proofs.Count.Agreement
import JsonBind.Proofs.Count.Tree

/-!
# Records and responses straight from a text

A record or a response can be read straight from a text, which stops at the first thing
that is wrong, or by way of a tree, which is there as a whole before its depth and its
fields are looked at. Where a text is no document both ways fail, and where no object of it
repeats a name they read the same.
-/

namespace JsonBind

/-- In the document that is written in a source no object has two members of one name. -/
def Source.Unrepeated (source : Source) : Prop :=
  forall w : Value, source.written = .ok w -> w.Distinct

variable {α : Type} [Model α]

/-!
# Models
-/

namespace Model

theorem result_ofText_eq_ok_iff {text : String} {a : α} :
    (ofText text : Outcome α).result = .ok a <->
      exists v : Value, (Source.ofText text).tree = .ok v ∧ v.depth ≤ 64 ∧
        (read ⟨v⟩ : Outcome α).result = .ok a := by
  unfold ofText
  rw [Outcome.result_bind_eq_ok_iff]
  constructor
  · rintro ⟨document, hdocument, hread⟩
    rcases (Document.ofText_eq_ok_iff rfl).mp hdocument with ⟨v, htree, hdepth, rfl⟩
    exact ⟨v, htree, hdepth, hread⟩
  · rintro ⟨v, htree, hdepth, hread⟩
    exact ⟨⟨v⟩, (Document.ofText_eq_ok_iff rfl).mpr ⟨v, htree, hdepth, rfl⟩, hread⟩

variable {struct : Struct α} {text : String}

theorem not_read_of_tree_error (hfaithful : struct.Faithful) {found : Fault}
    (h : (Source.ofText text).tree = .error found) (a : α) :
    struct.read (.ofText text) ≠ .ok a ∧ (ofText text : Outcome α).result ≠ .ok a := by
  constructor
  · intro hread
    rcases (Struct.read_eq_ok_iff_written hfaithful).mp hread with ⟨w, hw, _⟩
    have htree := Source.tree_eq_ok_iff.mpr ⟨w, hw, rfl⟩
    rw [h] at htree
    cases htree
  · intro hread
    rcases result_ofText_eq_ok_iff.mp hread with ⟨v, htree, _⟩
    rw [h] at htree
    cases htree

theorem read_iff_result_ofText (hfaithful : struct.Faithful) {depth : Nat}
    (hwithin : forall slot : Slot α, slot ∈ struct.slots -> slot.Within depth) (hdepth : depth < 64)
    (hunrepeated : (Source.ofText text).Unrepeated) {v : Value}
    (htree : (Source.ofText text).tree = .ok v) {a : α}
    (hread : (read ⟨v⟩ : Outcome α).result = .ok a <-> struct.ofTree v = .ok a) :
    struct.read (.ofText text) = .ok a <-> (ofText text : Outcome α).result = .ok a := by
  rcases Source.tree_eq_ok_iff.mp htree with ⟨w, hw, hsettled⟩
  rw [Value.settled_of_distinct (hunrepeated w hw)] at hsettled
  subst hsettled
  rw [Struct.read_eq_ok_iff_written hfaithful, result_ofText_eq_ok_iff]
  constructor
  · rintro ⟨other, hother, hstruct⟩
    cases hw.symm.trans hother
    -- What the slots take is so shallow that the limit never stops it.
    have hle := Nat.le_trans (Struct.depth_le_of_ofTree hwithin hstruct) hdepth
    exact ⟨w, htree, hle, hread.mpr hstruct⟩
  · rintro ⟨other, hother, _, hmodel⟩
    cases htree.symm.trans hother
    exact ⟨w, hw, hread.mp hmodel⟩

end Model

namespace Count

theorem Record.within (slot : Slot Record) (h : slot ∈ struct.slots) : slot.Within 0 := by
  simp only [struct, List.mem_cons, List.not_mem_nil, or_false] at h
  rcases h with rfl | rfl | rfl
  · exact Slot.within_long _ _ _ _
  · exact Slot.within_string _ _ _ _
  · exact Slot.within_long _ _ _ _

theorem Response.within (slot : Slot Response) (h : slot ∈ struct.slots) : slot.Within 2 := by
  cases List.mem_singleton.mp h
  exact Slot.within_list Record.within _ _ _ _

theorem eq_ok_iff_of_not_array {σ : Type} {struct : Struct σ} {v : Value} {record : σ} {P : Prop}
    (h : P <-> v.isObject = true ∧ struct.ofTree v = .ok record)
    (hroot : forall items : List Value, v ≠ .array items) : P <-> struct.ofTree v = .ok record := by
  rw [h]
  constructor
  · rintro ⟨_, hstruct⟩
    exact hstruct
  · intro hstruct
    exact ⟨Struct.isObject_of_ofTree hstruct hroot, hstruct⟩

/-- Reading straight from a text and reading by way of a tree both fail where the text is no
document. Else they read the same, if no object of the document repeats a name, if its root is no
array, and for responses if none of the records is given as an array. -/
theorem read_iff_ofText (text : String) :
    (forall found : Fault, (Source.ofText text).tree = .error found ->
      (forall record : Record, Record.struct.read (.ofText text) ≠ .ok record ∧
        (Model.ofText text : Outcome Record).result ≠ .ok record) ∧
      forall response : Response, Response.struct.read (.ofText text) ≠ .ok response ∧
        (Model.ofText text : Outcome Response).result ≠ .ok response) ∧
    forall v : Value, (Source.ofText text).tree = .ok v -> (Source.ofText text).Unrepeated ->
      (forall items : List Value, v ≠ .array items) ->
        (forall record : Record, Record.struct.read (.ofText text) = .ok record <->
          (Model.ofText text : Outcome Record).result = .ok record) ∧
        (Response.Unnested v ->
          forall response : Response, Response.struct.read (.ofText text) = .ok response <->
            (Model.ofText text : Outcome Response).result = .ok response) := by
  constructor
  · intro found htree
    constructor
    · exact Model.not_read_of_tree_error Record.faithful htree
    · exact Model.not_read_of_tree_error Response.faithful htree
  · intro v htree hunrepeated hroot
    constructor
    · intro record
      refine Model.read_iff_result_ofText Record.faithful Record.within (by decide) hunrepeated
        htree (eq_ok_iff_of_not_array ?_ hroot)
      exact Record.result_read_eq_ok_iff v record
    · intro hunnested response
      refine Model.read_iff_result_ofText Response.faithful Response.within (by decide) hunrepeated
        htree (eq_ok_iff_of_not_array ?_ hroot)
      have h := Response.result_read_eq_ok_iff v response
      simp only [hunnested, true_and] at h
      exact h

def spelled : Value :=
  .object [("records", .array [.object [("dc", .string "4")], .object []])]

theorem fits_spelled : Reader.Fits 3 spelled := by
  apply Reader.Fits.object (by decide)
  intro member hmem
  cases List.mem_singleton.mp hmem
  apply Reader.Fits.array
  intro item hitem
  simp only [List.mem_cons, List.not_mem_nil, or_false] at hitem
  rcases hitem with rfl | rfl
  · apply Reader.Fits.object (by decide)
    intro field hfield
    cases List.mem_singleton.mp hfield
    exact .string 0 "4"
  · exact Reader.Fits.object (by decide) (by simp)

theorem unnested_spelled : Response.Unnested spelled := by
  intro members items inner hobject hmem hinner
  cases hobject
  cases List.mem_singleton.mp hmem
  simp at hinner

theorem read_iff_ofText_spelled :
    ((Source.ofText "").tree = .error ⟨.endInValue, [], .atNext⟩ ∧
      forall response : Response, Response.struct.read (.ofText "") ≠ .ok response ∧
        (Model.ofText "" : Outcome Response).result ≠ .ok response) ∧
    ((Source.ofText (spelled.text .compact)).tree = .ok spelled ∧
      (Source.ofText (spelled.text .compact)).Unrepeated ∧ Response.Unnested spelled ∧
      Response.struct.read (.ofText (spelled.text .compact)) =
        .ok (.ofRecords [.ofCount 4, .empty]) ∧
      (Model.ofText (spelled.text .compact) : Outcome Response).result =
        .ok (.ofRecords [.ofCount 4, .empty])) := by
  have hempty : (Source.ofText "").tree = .error ⟨.endInValue, [], .atNext⟩ := rfl
  have hfits := fits_spelled.mono (show 3 ≤ Reader.maxLevels by decide)
  have htree := Source.tree_text hfits .compact
  have hunrepeated : (Source.ofText (spelled.text .compact)).Unrepeated := by
    intro w hw
    cases (Source.written_text hfits .compact).symm.trans hw
    exact hfits.distinct
  have hread : Response.struct.read (.ofText (spelled.text .compact)) =
      .ok (.ofRecords [.ofCount 4, .empty]) :=
    Struct.read_text Response.faithful hfits rfl .compact
  have hroot : forall items : List Value, spelled ≠ .array items := by
    intro items heq
    cases heq
  have hagree := (read_iff_ofText (spelled.text .compact)).right spelled htree hunrepeated hroot
  have hboth := hagree.right unnested_spelled (.ofRecords [.ofCount 4, .empty])
  refine ⟨⟨hempty, ?_⟩, htree, hunrepeated, unnested_spelled, hread, hboth.mp hread⟩
  exact ((read_iff_ofText "").left _ hempty).right

end Count
end JsonBind
