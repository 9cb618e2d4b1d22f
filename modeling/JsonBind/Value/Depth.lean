import JsonBind.Value

/-!
# Nesting depth

A scalar has depth 0, a container one more than its deepest child. The depth is
defined by recursion on the tree, and computed a second time by a loop over a
list of values that wait with the depth of their surroundings.
-/

namespace JsonBind
namespace Value

mutual

def depth : Value -> Nat
  | .null | .bool _ | .number _ | .string _ => 0
  | .array items => itemsDepth items + 1
  | .object members => membersDepth members + 1

def itemsDepth : List Value -> Nat
  | [] => 0
  | item :: rest => max item.depth (itemsDepth rest)

def membersDepth : List (String × Value) -> Nat
  | [] => 0
  | (_, value) :: rest => max value.depth (membersDepth rest)

end

/-!
# The depth by a worklist

The loop takes the value that has come last, notes its level if it is a
container, and lets its children wait one level further in. The number of values
that are still to be visited, those inside the waiting ones included, shrinks
with each turn.
-/

def children : Value -> List Value
  | .array items => items
  | .object members => members.map (·.2)
  | _ => []

def isContainer : Value -> Bool
  | .array _ | .object _ => true
  | _ => false

mutual

def count : Value -> Nat
  | .null | .bool _ | .number _ | .string _ => 1
  | .array items => itemsCount items + 1
  | .object members => membersCount members + 1

def itemsCount : List Value -> Nat
  | [] => 0
  | item :: rest => item.count + itemsCount rest

def membersCount : List (String × Value) -> Nat
  | [] => 0
  | (_, value) :: rest => value.count + membersCount rest

end

theorem itemsCount_append (items rest : List Value) :
    itemsCount (items ++ rest) = itemsCount items + itemsCount rest := by
  induction items with
  | nil => simp [itemsCount]
  | cons item items ih => simp [itemsCount, ih, Nat.add_assoc]

theorem itemsCount_map_snd (members : List (String × Value)) :
    itemsCount (members.map (·.2)) = membersCount members := by
  induction members with
  | nil => rfl
  | cons member rest ih => simp [itemsCount, membersCount, ih]

theorem itemsCount_reverse (items : List Value) :
    itemsCount items.reverse = itemsCount items := by
  induction items with
  | nil => rfl
  | cons item items ih =>
      rw [List.reverse_cons, itemsCount_append, ih]
      simp [itemsCount, Nat.add_comm]

theorem itemsCount_children_lt (value : Value) :
    itemsCount value.children < value.count := by
  cases value <;> simp [children, count, itemsCount, itemsCount_map_snd]

/-- The greatest of `deepest` and the levels of the containers in `waiting`. The value that came
last stands first. -/
def deepestOf (waiting : List (Value × Nat)) (deepest : Nat) : Nat :=
  match waiting with
  | [] => deepest
  | (value, level) :: rest =>
      let inside := value.children.reverse.map fun child => (child, level + 1)
      deepestOf (inside ++ rest) (if value.isContainer then max deepest level else deepest)
termination_by itemsCount (waiting.map (·.1))
decreasing_by
  have inside :
      (value.children.reverse.map fun child => (child, level + 1)).map (·.1) =
        value.children.reverse := by
    simp [Function.comp_def]
  rw [List.map_append, itemsCount_append, inside, itemsCount_reverse]
  simpa [itemsCount] using itemsCount_children_lt value

def worklistDepth (value : Value) : Nat :=
  deepestOf [(value, 1)] 0

end Value
end JsonBind
