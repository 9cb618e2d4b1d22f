import Mathlib.Data.List.Induction
import JsonBind.Value

/-!
# Members by insertion

A list of writes leaves one member for each name. A name stands where it came
first, and has the value that came last.
-/

namespace JsonBind
namespace Members

def names (members : Members) : List String :=
  members.map (·.1)

def optional (name : String) (value? : Option Value) : Members :=
  (value?.map fun value => (name, value)).toList

theorem eq_of_mem_names_optional {name other : String} {value? : Option Value}
    (h : other ∈ (optional name value?).names) : other = name := by
  cases value? with
  | none => cases h
  | some value => exact List.mem_singleton.mp h

/-!
# One insertion
-/

theorem insert_of_not_mem {name : String} {members : Members} (h : name ∉ names members)
    (value : Value) : insert name value members = members ++ [(name, value)] := by
  induction members with
  | nil => rfl
  | cons member rest ih =>
      rcases member with ⟨other, old⟩
      have hne : other ≠ name := by
        intro heq
        exact h (by simp [names, heq])
      have hrest : name ∉ names rest := by
        intro hmem
        exact h (List.mem_cons_of_mem other hmem)
      rw [insert, if_neg hne, ih hrest]
      rfl

theorem names_insert_of_mem {name : String} {members : Members} (h : name ∈ names members)
    (value : Value) : names (insert name value members) = names members := by
  induction members with
  | nil => cases h
  | cons member rest ih =>
      rcases member with ⟨other, old⟩
      by_cases heq : other = name
      · rw [insert, if_pos heq, heq]
        rfl
      · have hrest : name ∈ names rest := by
          cases h with
          | head => exact absurd rfl heq
          | tail _ hmem => exact hmem
        rw [insert, if_neg heq]
        change other :: names (insert name value rest) = other :: names rest
        rw [ih hrest]

theorem nodup_names_insert {members : Members} (h : (names members).Nodup) (name : String)
    (value : Value) : (names (insert name value members)).Nodup := by
  by_cases hmem : name ∈ names members
  · rw [names_insert_of_mem hmem]
    exact h
  · rw [insert_of_not_mem hmem]
    change (List.map (·.1) (members ++ [(name, value)])).Nodup
    rw [List.map_append]
    exact List.nodup_append.mpr ⟨h, by simp, by
      intro other hother single hsingle heq
      rw [heq, List.mem_singleton.mp hsingle] at hother
      exact hmem hother⟩

theorem lookup_insert (key name : String) (value : Value) (members : Members) :
    (insert name value members).lookup key =
      if key = name then some value else members.lookup key := by
  induction members with
  | nil =>
      by_cases heq : key = name
      · simp [insert, heq]
      · simp [insert, List.lookup_cons, beq_eq_false_iff_ne.mpr heq, heq]
  | cons member rest ih =>
      rcases member with ⟨other, old⟩
      by_cases hother : other = name
      · rw [insert, if_pos hother, List.lookup_cons, List.lookup_cons, hother]
        by_cases heq : key = name
        · simp [heq]
        · simp [beq_eq_false_iff_ne.mpr heq, heq]
      · rw [insert, if_neg hother, List.lookup_cons, List.lookup_cons, ih]
        by_cases heq : key = name
        · subst heq
          simp [beq_eq_false_iff_ne.mpr (Ne.symm hother)]
        · simp [heq]

/-!
# Many insertions
-/

theorem ofWrites_append (writes : List (String × Value)) (name : String) (value : Value) :
    ofWrites (writes ++ [(name, value)]) = insert name value (ofWrites writes) := by
  rw [ofWrites, List.foldl_append]
  rfl

theorem lookup_ofWrites (key : String) (writes : List (String × Value)) :
    (ofWrites writes).lookup key = writes.reverse.lookup key := by
  induction writes using List.reverseRecOn with
  | nil => rfl
  | append_singleton writes write ih =>
      rcases write with ⟨name, value⟩
      rw [ofWrites_append, lookup_insert, List.reverse_append, List.reverse_singleton,
        List.singleton_append, List.lookup_cons, ih]
      by_cases heq : key = name
      · simp [heq]
      · simp [beq_eq_false_iff_ne.mpr heq, heq]

theorem names_ofWrites (writes : List (String × Value)) :
    names (ofWrites writes) = (writes.map (·.1)).eraseDups := by
  induction writes using List.reverseRecOn with
  | nil => rfl
  | append_singleton writes write ih =>
      rcases write with ⟨name, value⟩
      rw [ofWrites_append, List.map_append, List.eraseDups_append, ← ih]
      by_cases hmem : name ∈ names (ofWrites writes)
      · have hold : name ∈ writes.map (·.1) := by
          rw [ih] at hmem
          exact List.mem_eraseDups.mp hmem
        rw [names_insert_of_mem hmem]
        simp [List.removeAll, hold]
      · have hnew : name ∉ writes.map (·.1) := by
          intro hold
          rw [ih] at hmem
          exact hmem (List.mem_eraseDups.mpr hold)
        have hkept : [name].removeAll (writes.map (·.1)) = [name] := by
          rw [List.removeAll, List.filter_eq_self]
          intro other hother
          rw [List.mem_singleton.mp hother]
          simpa using hnew
        rw [insert_of_not_mem hmem, List.map_singleton, hkept]
        simp [names, List.eraseDups_cons]

theorem ofWrites_of_nodup {members : Members} (h : (names members).Nodup) :
    ofWrites members = members := by
  induction members using List.reverseRecOn with
  | nil => rfl
  | append_singleton members member ih =>
      rcases member with ⟨name, value⟩
      have hparts : (names members).Nodup ∧ name ∉ names members := by
        rw [names, List.map_append] at h
        rcases List.nodup_append.mp h with ⟨hfirst, _, hdisjoint⟩
        exact ⟨hfirst, fun hmem => hdisjoint name hmem name (by simp) rfl⟩
      rw [ofWrites_append, ih hparts.left, insert_of_not_mem hparts.right]

end Members
end JsonBind
