import JsonBind.Proofs.Document.Depth
import JsonBind.Proofs.Reader.Honest

/-!
# One document from every source

A text, its bytes, and a stream that serves them become the same document, which is the one
that the tree of the text becomes, or are refused with errors of one kind. In what chunks the
stream serves, and how often it is interrupted, makes no difference. Settings that cannot be
used are refused before anything is read.
-/

namespace JsonBind

theorem Source.tree_eq_of_bytes {source other : Source} (hbytes : source.bytes = other.bytes)
    (hending : source.ending = other.ending) : source.tree = other.tree := by
  rcases source with ⟨bytes, ending, pulled⟩
  rcases other with ⟨_, _, pulled'⟩
  cases hbytes
  cases hending
  unfold tree read
  dsimp only
  cases Reader.document ending (Reader.value ending) bytes with
  | ok found => rfl
  | error found => rfl

namespace Document

variable {settings : Settings}

theorem ofSource_of_zero (h : settings.maxDepth.toNat = 0) (source : Source) :
    ofSource settings source = .error Settings.Refusal.zeroDepth.error := by
  unfold ofSource
  rw [Settings.check_eq, if_pos h]
  rfl

theorem ofSource_of_tree {source : Source} {root : Value} (h : source.tree = .ok root) :
    ofSource settings source = ofValue settings root := by
  by_cases hzero : settings.maxDepth.toNat = 0
  · rw [ofSource_of_zero hzero, ofValue_of_zero hzero]
  · unfold ofSource
    rw [Settings.check_eq, if_neg hzero, h]
    rfl

theorem ofSource_of_tree_error (hpos : settings.maxDepth.toNat ≠ 0) {source : Source}
    (hending : source.ending = .clean) {found : Fault} (h : source.tree = .error found) :
    ofSource settings source = .error (.parse (source.message found)) := by
  have hcause : found.cause.isIo = false := by
    cases hcause : found.cause with
    | io reason =>
        have hbroken := Source.ending_of_tree_error h hcause
        rw [hending] at hbroken
        cases hbroken
    | _ => rfl
  unfold ofSource
  rw [Settings.check_eq, if_neg hpos, h]
  show Except.error (readError source found) = _
  unfold readError
  rw [hcause]
  rfl

theorem ofValue_eq_ok_or_parse (hpos : settings.maxDepth.toNat ≠ 0) (root : Value) :
    ofValue settings root = .ok ⟨root⟩ ∨
      exists reason : String, ofValue settings root = .error (.parse reason) := by
  by_cases hdeep : settings.maxDepth.toNat < root.depth
  · exact Or.inr ⟨_, ofValue_of_lt_depth hpos hdeep⟩
  · have hcheck : settings.check = .ok () := by rw [Settings.check_eq, if_neg hpos]
    exact Or.inl (ofValue_of_depth_le hcheck (Nat.le_of_not_lt hdeep))

/-- A text, its bytes, and a stream that serves these bytes and ends, become one document, which has
the tree of the text as its root; or all three are refused, with one and the same complaint about
settings that allow no depth, and else with a parse error. Where the text has a tree, the three are
what the tree becomes, errors included. -/
theorem sources_agree (settings : Settings) (text : String) {stream : Stream}
    (hserved : stream.served = (Utf8.encode text, .clean)) :
    ((exists root : Value, (Source.ofText text).tree = .ok root ∧
        ofText settings text = .ok ⟨root⟩ ∧
        ofBytes settings (Utf8.encode text) = .ok ⟨root⟩ ∧
        ofStream settings stream = .ok ⟨root⟩) ∨
      (settings.maxDepth = 0 ∧
        ofText settings text = .error Settings.Refusal.zeroDepth.error ∧
        ofBytes settings (Utf8.encode text) = .error Settings.Refusal.zeroDepth.error ∧
        ofStream settings stream = .error Settings.Refusal.zeroDepth.error) ∨
      (settings.maxDepth ≠ 0 ∧ exists reason served : String,
        ofText settings text = .error (.parse reason) ∧
        ofBytes settings (Utf8.encode text) = .error (.parse reason) ∧
        ofStream settings stream = .error (.parse served))) ∧
    forall root : Value, (Source.ofText text).tree = .ok root ->
      ofText settings text = ofValue settings root ∧
      ofBytes settings (Utf8.encode text) = ofValue settings root ∧
      ofStream settings stream = ofValue settings root := by
  have hsource : Source.ofStream stream = ⟨Utf8.encode text, .clean, true⟩ := by
    rw [Source.ofStream_eq, hserved]
  have hbytes : (Source.ofStream stream).bytes = Utf8.encode text := congrArg Source.bytes hsource
  have hending : (Source.ofStream stream).ending = .clean := congrArg Source.ending hsource
  have htree : (Source.ofStream stream).tree = (Source.ofText text).tree :=
    Source.tree_eq_of_bytes hbytes hending
  have hzero_iff : settings.maxDepth = 0 <-> settings.maxDepth.toNat = 0 := UInt64.toNat_inj.symm
  have hroot : forall root : Value, (Source.ofText text).tree = .ok root ->
      ofText settings text = ofValue settings root ∧
      ofBytes settings (Utf8.encode text) = ofValue settings root ∧
      ofStream settings stream = ofValue settings root := by
    intro root h
    exact ⟨ofSource_of_tree h, ofSource_of_tree h, ofSource_of_tree (htree.trans h)⟩
  refine ⟨?_, hroot⟩
  by_cases hzero : settings.maxDepth.toNat = 0
  · have hrefused := ofSource_of_zero hzero
    exact Or.inr (Or.inl ⟨hzero_iff.mpr hzero, hrefused _, hrefused _, hrefused _⟩)
  · have hne : settings.maxDepth ≠ 0 := mt hzero_iff.mp hzero
    cases h : (Source.ofText text).tree with
    | ok root =>
        rcases hroot root h with ⟨htext, hbytes, hstream⟩
        rcases ofValue_eq_ok_or_parse hzero root with hok | ⟨reason, hparse⟩
        · exact Or.inl ⟨root, rfl, htext.trans hok, hbytes.trans hok, hstream.trans hok⟩
        · exact Or.inr (Or.inr ⟨hne, reason, reason, htext.trans hparse, hbytes.trans hparse,
            hstream.trans hparse⟩)
    | error found =>
        have htext := ofSource_of_tree_error hzero rfl h
        have hstream := ofSource_of_tree_error hzero hending (htree.trans h)
        exact Or.inr (Or.inr ⟨hne, _, _, htext, htext, hstream⟩)

def cutInChar : Stream :=
  [.chunk 0x5b [0x5b, 0x22], .interrupted, .chunk 0xc3 [], .chunk 0xa9 [0x22, 0x5d, 0x5d]]

theorem tree_cutInChar :
    (Source.ofText "[[\"é\"]]").tree = .ok (.array [.array [.string "é"]]) := by
  have hinner : Reader.Fits 1 (.array [.string "é"]) := by
    apply Reader.Fits.array
    intro item hitem
    cases List.mem_singleton.mp hitem
    exact .string 0 "é"
  have houter : Reader.Fits 2 (.array [.array [.string "é"]]) := by
    apply Reader.Fits.array
    intro item hitem
    cases List.mem_singleton.mp hitem
    exact hinner
  exact Source.tree_text (houter.mono (show 2 ≤ Reader.maxLevels by decide)) .compact

theorem sources_agree_cutInChar :
    cutInChar.served = (Utf8.encode "[[\"é\"]]", .clean) ∧
      ofText ⟨1⟩ "[[\"é\"]]" = .error (tooDeep 2 ⟨1⟩) ∧
      ofStream ⟨1⟩ cutInChar = .error (tooDeep 2 ⟨1⟩) := by
  have hserved : cutInChar.served = (Utf8.encode "[[\"é\"]]", .clean) := rfl
  rcases (sources_agree ⟨1⟩ "[[\"é\"]]" hserved).right _ tree_cutInChar with ⟨htext, _, hstream⟩
  have hdeep : ofValue ⟨1⟩ (.array [.array [.string "é"]]) = .error (tooDeep 2 ⟨1⟩) :=
    ofValue_of_lt_depth (by decide) (by decide)
  exact ⟨hserved, htext.trans hdeep, hstream.trans hdeep⟩

end Document
end JsonBind
