import JsonBind.Value.Depth

/-!
# Depth

What is inside a container is less deep than it. The worklist finds the depth: the
levels it notes for the waiting values are those that their depths lead to.
-/

namespace JsonBind
namespace Value

theorem depth_le_itemsDepth {items : List Value} {item : Value} (h : item ∈ items) :
    item.depth ≤ itemsDepth items := by
  induction h with
  | head rest =>
      rw [itemsDepth]
      exact Nat.le_max_left _ _
  | tail other _ ih =>
      rw [itemsDepth]
      exact Nat.le_trans ih (Nat.le_max_right _ _)

theorem itemsDepth_le {items : List Value} {bound : Nat}
    (h : forall item : Value, item ∈ items -> item.depth ≤ bound) :
    itemsDepth items ≤ bound := by
  induction items with
  | nil => exact Nat.zero_le bound
  | cons item items ih =>
      rw [itemsDepth]
      refine Nat.max_le.mpr ⟨h item List.mem_cons_self, ih ?_⟩
      intro other hother
      exact h other (List.mem_cons_of_mem item hother)

theorem itemsDepth_reverse (items : List Value) :
    itemsDepth items.reverse = itemsDepth items := by
  apply Nat.le_antisymm
  · apply itemsDepth_le
    intro item hmem
    exact depth_le_itemsDepth (List.mem_reverse.mp hmem)
  · apply itemsDepth_le
    intro item hmem
    exact depth_le_itemsDepth (List.mem_reverse.mpr hmem)

theorem itemsDepth_eq_foldr (items : List Value) :
    itemsDepth items = (items.map depth).foldr max 0 := by
  induction items with
  | nil => rfl
  | cons item items ih => rw [itemsDepth, ih, List.map_cons, List.foldr_cons]

/-!
# The worklist
-/

theorem itemsDepth_map_snd (members : Members) :
    itemsDepth (members.map (·.2)) = membersDepth members := by
  induction members with
  | nil => rfl
  | cons member rest ih => rw [List.map_cons, itemsDepth, membersDepth, ih]

theorem depth_of_isContainer {v : Value} (h : v.isContainer = true) :
    v.depth = itemsDepth v.children + 1 := by
  cases v with
  | array items => rw [depth, children]
  | object members => rw [depth, children, itemsDepth_map_snd]
  | _ => cases h

theorem children_of_not_isContainer {v : Value} (h : v.isContainer = false) :
    v.children = [] ∧ v.depth = 0 := by
  cases v with
  | array items => cases h
  | object members => cases h
  | _ => exact ⟨rfl, by rw [depth]⟩

theorem depth_le_succ_iff {v : Value} (h : v.isContainer = true) {bound : Nat} :
    v.depth ≤ bound + 1 <->
      forall child : Value, child ∈ v.children -> child.depth ≤ bound := by
  rw [depth_of_isContainer h, Nat.add_le_add_iff_right]
  constructor
  · intro hdepth child hmem
    exact Nat.le_trans (depth_le_itemsDepth hmem) hdepth
  · exact itemsDepth_le

/-- The deepest level of a container in a value at the given level, 0 if there is none. -/
def reach (v : Value) (level : Nat) : Nat :=
  if v.isContainer then level + itemsDepth v.children else 0

def reachOf (deepest : Nat) : List (Value × Nat) -> Nat
  | [] => deepest
  | (v, level) :: rest => max (reach v level) (reachOf deepest rest)

theorem reach_succ (v : Value) (level : Nat) :
    max level (reach v (level + 1)) = level + v.depth := by
  cases hcontainer : v.isContainer with
  | true =>
      rw [reach, if_pos hcontainer, depth_of_isContainer hcontainer]
      omega
  | false =>
      rw [reach, hcontainer, (children_of_not_isContainer hcontainer).right]
      exact Nat.max_zero level

theorem reachOf_max_append (first rest : List (Value × Nat)) (level deepest : Nat) :
    reachOf (max deepest level) (first ++ rest) =
      max (reachOf level first) (reachOf deepest rest) := by
  induction first with
  | nil =>
      rw [List.nil_append, reachOf]
      induction rest with
      | nil => exact Nat.max_comm deepest level
      | cons waiting rest ih =>
          rw [reachOf, reachOf, ih]
          exact Nat.max_left_comm _ _ _
  | cons waiting first ih =>
      rw [List.cons_append, reachOf, reachOf, ih]
      exact (Nat.max_assoc _ _ _).symm

theorem reachOf_items (items : List Value) (level : Nat) :
    reachOf level (items.map fun item => (item, level + 1)) = level + itemsDepth items := by
  induction items with
  | nil => rfl
  | cons item items ih =>
      have hitem := reach_succ item level
      rw [List.map_cons, reachOf, ih, itemsDepth]
      omega

theorem deepestOf_eq_reachOf (waiting : List (Value × Nat)) (deepest : Nat) :
    deepestOf waiting deepest = reachOf deepest waiting := by
  induction waiting, deepest using deepestOf.induct with
  | case1 deepest => rw [deepestOf, reachOf]
  | case2 deepest v level rest inside ih =>
      simp only [inside, dite_eq_ite] at ih
      rw [deepestOf, ih, reachOf, reach]
      cases hcontainer : v.isContainer with
      | true =>
          rw [if_pos rfl, if_pos rfl, reachOf_max_append, reachOf_items, itemsDepth_reverse]
      | false =>
          rw [(children_of_not_isContainer hcontainer).left, if_neg Bool.false_ne_true,
            if_neg Bool.false_ne_true]
          exact (Nat.zero_max _).symm

theorem worklistDepth_eq_depth (v : Value) : v.worklistDepth = v.depth := by
  have hreach := reach_succ v 0
  rw [Nat.zero_max] at hreach
  rw [worklistDepth, deepestOf_eq_reachOf, reachOf, reachOf, Nat.max_zero, hreach, Nat.zero_add]

end Value
end JsonBind
