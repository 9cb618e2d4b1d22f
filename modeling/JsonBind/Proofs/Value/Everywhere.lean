import JsonBind.Value.Depth
import JsonBind.Proofs.Value.Members

/-!
# Trees as a whole

Induction over a tree, with what is to be shown at hand for all values inside a
container; and properties that hold of a value and of all that is inside of it.
-/

namespace JsonBind
namespace Value

@[elab_as_elim]
theorem induction {motive : Value -> Prop} (null : motive .null)
    (bool : forall flag : Bool, motive (.bool flag))
    (number : forall n : Number, motive (.number n))
    (string : forall text : String, motive (.string text))
    (array : forall items : List Value,
      (forall item : Value, item ∈ items -> motive item) -> motive (.array items))
    (object : forall members : Members,
      (forall member : String × Value, member ∈ members -> motive member.2) ->
        motive (.object members))
    (v : Value) : motive v :=
  @Value.rec motive (fun items => forall item : Value, item ∈ items -> motive item)
    (fun members => forall member : String × Value, member ∈ members -> motive member.2)
    (fun member => motive member.2) null bool number string array object
    (fun item hmem => by cases hmem)
    (fun head tail hhead htail item hmem => by
      cases hmem with
      | head _ => exact hhead
      | tail _ hmem => exact htail item hmem)
    (fun member hmem => by cases hmem)
    (fun head tail hhead htail member hmem => by
      cases hmem with
      | head _ => exact hhead
      | tail _ hmem => exact htail member hmem)
    (fun _ _ hvalue => hvalue) v

inductive Everywhere (p : Value -> Prop) : Value -> Prop where
  | intro {v : Value} :
      p v ->
      (forall child : Value, child ∈ v.children -> Everywhere p child) ->
      Everywhere p v

variable {p : Value -> Prop}

theorem Everywhere.here {v : Value} (h : Everywhere p v) : p v := by
  cases h with
  | intro here _ => exact here

theorem Everywhere.child {v child : Value} (h : Everywhere p v) (hmem : child ∈ v.children) :
    Everywhere p child := by
  cases h with
  | intro _ inside => exact inside child hmem

def Integral : Value -> Prop :=
  Everywhere fun v =>
    forall (x : Float) (finite : x.isFinite = true), v ≠ .number (.float x finite)

def Distinct : Value -> Prop :=
  Everywhere fun v => forall members : Members, v = .object members -> members.names.Nodup

theorem distinct_of_not_isContainer {v : Value} (h : v.isContainer = false) : v.Distinct := by
  constructor
  · intro members heq
    rw [heq] at h
    cases h
  · intro child hmem
    cases v with
    | array items => cases h
    | object members => cases h
    | _ => cases hmem

theorem distinct_array {items : List Value}
    (h : forall item : Value, item ∈ items -> item.Distinct) : (array items).Distinct := by
  constructor
  · intro members heq
    cases heq
  · exact h

theorem distinct_object {members : Members} (hnodup : members.names.Nodup)
    (h : forall member : String × Value, member ∈ members -> member.2.Distinct) :
    (object members).Distinct := by
  constructor
  · intro other heq
    cases heq
    exact hnodup
  · intro child hmem
    rcases List.mem_map.mp hmem with ⟨member, hmember, rfl⟩
    exact h member hmember

end Value
end JsonBind
