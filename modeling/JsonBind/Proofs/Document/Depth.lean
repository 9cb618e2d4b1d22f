import JsonBind.Proofs.Reader.Source

/-!
# Trees that become documents

A tree becomes a document, and stays what it is, if the settings can be used and it is no
deeper than they allow. Settings without any depth are refused whatever the tree is. The
depth that is compared, and told, is the one that the loop over waiting values finds; it is
the depth that follows from the children.
-/

namespace JsonBind

theorem Settings.check_eq (settings : Settings) :
    settings.check = if settings.maxDepth.toNat = 0 then .error .zeroDepth else .ok () := by
  have hzero : settings.maxDepth = 0 <-> settings.maxDepth.toNat = 0 := UInt64.toNat_inj.symm
  simp only [check, hzero]

theorem Value.depth_eq (v : Value) :
    v.depth = if v.isContainer then 1 + (v.children.map depth).foldr max 0 else 0 := by
  cases hcontainer : v.isContainer with
  | true => rw [if_pos rfl, depth_of_isContainer hcontainer, itemsDepth_eq_foldr, Nat.add_comm]
  | false => rw [if_neg Bool.false_ne_true, (children_of_not_isContainer hcontainer).right]

namespace Document

variable {settings : Settings}

theorem ofValue_of_zero (h : settings.maxDepth.toNat = 0) (v : Value) :
    ofValue settings v = .error Settings.Refusal.zeroDepth.error := by
  unfold ofValue
  rw [Settings.check_eq, if_pos h]
  rfl

theorem ofValue_of_lt_depth (hpos : settings.maxDepth.toNat ≠ 0) {v : Value}
    (h : settings.maxDepth.toNat < v.depth) :
    ofValue settings v = .error (tooDeep v.depth settings) := by
  unfold ofValue
  rw [Settings.check_eq, if_neg hpos, Value.worklistDepth_eq_depth]
  exact if_pos h

/-- The loop over waiting values finds the depth of a tree: none for a scalar, and for a container
one more than for the deepest of its children. A tree becomes a document, with itself as the root,
if the settings allow some depth and no less than it has. Settings that allow none are refused, and
a tree that is deeper than they allow is refused with both depths told. -/
theorem ofValue_iff_depth (v : Value) :
    (v.worklistDepth = v.depth ∧
      v.depth = if v.isContainer then 1 + (v.children.map Value.depth).foldr max 0 else 0) ∧
    forall settings : Settings,
      (forall document : Document, ofValue settings v = .ok document <->
        1 ≤ settings.maxDepth.toNat ∧ v.depth ≤ settings.maxDepth.toNat ∧ document.root = v) ∧
      (forall reason : String, ofValue settings v = .error (.config reason) <->
        settings.maxDepth.toNat = 0 ∧
          reason = "max_nesting_depth must be greater than zero") ∧
      forall reason : String, ofValue settings v = .error (.parse reason) <->
        1 ≤ settings.maxDepth.toNat ∧ settings.maxDepth.toNat < v.depth ∧
          reason = "document nesting depth " ++ String.ofList (Decimal.natural v.depth) ++
            " exceeds the limit of " ++
              String.ofList (Decimal.natural settings.maxDepth.toNat) := by
  refine ⟨⟨v.worklistDepth_eq_depth, v.depth_eq⟩, ?_⟩
  intro settings
  by_cases hzero : settings.maxDepth.toNat = 0
  · rw [ofValue_of_zero hzero]
    simp [hzero, Settings.Refusal.error, Settings.Refusal.reason, eq_comm]
  · have hpos : 1 ≤ settings.maxDepth.toNat := Nat.one_le_iff_ne_zero.mpr hzero
    by_cases hdeep : settings.maxDepth.toNat < v.depth
    · have hnot : ¬ v.depth ≤ settings.maxDepth.toNat := Nat.not_le.mpr hdeep
      rw [ofValue_of_lt_depth hzero hdeep]
      simp [hzero, hpos, hdeep, hnot, tooDeep, eq_comm]
    · have hle : v.depth ≤ settings.maxDepth.toNat := Nat.le_of_not_lt hdeep
      have hcheck : settings.check = .ok () := by rw [Settings.check_eq, if_neg hzero]
      rw [ofValue_of_depth_le hcheck hle]
      refine ⟨?_, by simp [hzero], by simp [hdeep]⟩
      intro document
      constructor
      · intro h
        cases h
        exact ⟨hpos, hle, rfl⟩
      · intro h
        rcases h with ⟨_, _, rfl⟩
        rfl

end Document
end JsonBind
