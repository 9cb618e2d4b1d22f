import JsonBind.Proofs.Builder.Step
import JsonBind.Proofs.Value.Members

/-!
# Coherent builders

Calls of clients come in any order, and a client may go on after a refusal. All
builders that come up that way are coherent. In a coherent builder every open
container has a place for what it will become, so the second move of a call that
makes two is never refused: a refused call leaves the builder as it was.
-/

namespace JsonBind
namespace Builder

structure Coherent (b : Builder) : Prop where
  -- Nothing is open once there is a root.
  closed : b.root ≠ none -> b.scopes = []
  -- Only in the innermost scope can a name be missing.
  named : forall members : Members, Scope.object members none ∉ b.scopes.tail
  distinct : forall (members : Members) (pending : Option String),
    Scope.object members pending ∈ b.scopes -> members.names.Nodup

theorem coherent_empty : Coherent .empty where
  closed h := absurd rfl h
  named _ h := by cases h
  distinct _ _ h := by cases h

namespace Coherent

theorem root_eq_none {scope : Scope} {outer : List Scope} {root : Option Value}
    (h : Coherent ⟨scope :: outer, root⟩) : root = none := by
  cases root with
  | none => rfl
  | some value => cases h.closed (by intro eq; cases eq)

theorem supported {b : Builder} (h : Coherent b) : Supported b := by
  intro scope outer eq
  rcases b with ⟨scopes, root⟩
  cases eq
  have hroot := h.root_eq_none
  cases hroot
  cases outer with
  | nil => exact HasRoom.root
  | cons below rest =>
      cases below with
      | array items => exact HasRoom.item
      | object members pending =>
          cases pending with
          | some name => exact HasRoom.member
          | none => exact absurd (List.mem_cons_self) (h.named members)

/-!
# Pushing, popping and putting
-/

theorem pop {scope : Scope} {outer : List Scope} {root : Option Value}
    (h : Coherent ⟨scope :: outer, root⟩) : Coherent ⟨outer, root⟩ where
  closed hroot := absurd h.root_eq_none hroot
  named members hmem := h.named members (List.mem_of_mem_tail hmem)
  distinct members pending hmem :=
    h.distinct members pending (List.mem_cons_of_mem scope hmem)

theorem replace {scope other : Scope} {outer : List Scope} {root : Option Value}
    (h : Coherent ⟨scope :: outer, root⟩)
    (hother : forall (members : Members) (pending : Option String),
      other = .object members pending -> members.names.Nodup) :
    Coherent ⟨other :: outer, root⟩ where
  closed hroot := absurd h.root_eq_none hroot
  named members hmem := h.named members hmem
  distinct members pending hmem := by
    cases hmem with
    | head => exact hother members pending rfl
    | tail _ hmem => exact h.distinct members pending (List.mem_cons_of_mem scope hmem)

theorem push {b : Builder} (h : Coherent b) (room : HasRoom b) {scope : Scope}
    (hscope : forall (members : Members) (pending : Option String),
      scope = .object members pending -> members.names.Nodup) :
    Coherent { b with scopes := scope :: b.scopes } where
  closed hroot := by
    cases room with
    | root => exact absurd rfl hroot
    | item => exact absurd h.root_eq_none hroot
    | member => exact absurd h.root_eq_none hroot
  named members hmem := by
    change Scope.object members none ∈ b.scopes at hmem
    cases room with
    | root => cases hmem
    | item =>
        cases hmem with
        | tail _ hmem => exact h.named members hmem
    | member =>
        cases hmem with
        | tail _ hmem => exact h.named members hmem
  distinct members pending hmem := by
    cases hmem with
    | head => exact hscope members pending rfl
    | tail _ hmem => exact h.distinct members pending hmem

theorem put {b : Builder} (h : Coherent b) (room : HasRoom b) (v : Value) :
    Coherent (b.put v) := by
  cases room with
  | root =>
      exact
        { closed := fun _ => rfl
          named := fun _ hmem => by cases hmem
          distinct := fun _ _ hmem => by cases hmem }
  | item =>
      apply h.replace
      intro members pending eq
      cases eq
  | member =>
      rename_i members name outer root
      apply h.replace
      intro members' pending eq
      cases eq
      exact Members.nodup_names_insert (h.distinct members (some name) List.mem_cons_self) name v

theorem step {p : Piece} {b b' : Builder} (h : Coherent b) (step : Step p b b') :
    Coherent b' := by
  cases step with
  | openObject room =>
      apply h.push room
      intro members pending eq
      cases eq
      exact List.nodup_nil
  | openArray room =>
      apply h.push room
      intro members pending eq
      cases eq
  | closeObject room => exact h.pop.put room _
  | closeArray room => exact h.pop.put room _
  | field =>
      rename_i name members outer root
      apply h.replace
      intro members' pending eq
      cases eq
      exact h.distinct members none List.mem_cons_self
  | value room => exact h.put room _

theorem steps {ps : List Piece} {b b' : Builder} (h : Coherent b) (steps : Steps ps b b') :
    Coherent b' := by
  induction steps with
  | nil _ => exact h
  | cons first _ ih => exact ih (h.step first)

end Coherent
end Builder
end JsonBind
