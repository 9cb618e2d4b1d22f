import Mathlib.Data.List.Forall2
import JsonBind.Proofs.Builder.Call

/-!
# Writing a value

A run of calls may come to the same as writing one value. If the items of an array are
written by such runs, then the array is the one of their values, and writing it comes to
the same as writing that array under its name at once.
-/

namespace JsonBind
namespace Builder

def Puts (write : Write Unit) (v : Value) : Prop :=
  forall b : Builder, HasRoom b -> write.run b = .ok () (b.put v)

def Appends (write : Write Unit) (v : Value) : Prop :=
  forall (items : Array Value) (outer : List Scope) (root : Option Value),
    write.run ⟨.array items :: outer, root⟩ = .ok () ⟨.array (items.push v) :: outer, root⟩

/-- In an array, the run appends `v`, as long as the builder is one of those in `P`. -/
def AppendsIn (P : Builder -> Prop) (write : Write Unit) (v : Value) : Prop :=
  forall (items : Array Value) (outer : List Scope) (root : Option Value),
    P ⟨.array items :: outer, root⟩ ->
      write.run ⟨.array items :: outer, root⟩ = .ok () ⟨.array (items.push v) :: outer, root⟩

theorem Puts.appends {write : Write Unit} {v : Value} (h : Puts write v) : Appends write v := by
  intro items outer root
  exact h ⟨.array items :: outer, root⟩ .item

theorem Appends.appendsIn {write : Write Unit} {v : Value} (h : Appends write v)
    (P : Builder -> Prop) : AppendsIn P write v :=
  fun items outer root _ => h items outer root

/-!
# Runs that come to one value
-/

/-- On this builder the run comes to the same as writing `v`. It is accepted where there is room
for a value, and otherwise refused before anything has changed. -/
structure ComesTo (write : Write Unit) (v : Value) (b : Builder) : Prop where
  accepted : (exists b' : Builder, write.run b = .ok () b') <-> HasRoom b
  written : forall b' : Builder, write.run b = .ok () b' -> (value v).run b = .ok () b'
  outer : forall b' : Builder, write.run b = .ok () b' ->
    b'.scopes.length = b.scopes.length ∧ b'.scopes.tail = b.scopes.tail
  refused : forall (e : Error) (b' : Builder), write.run b = .error e b' ->
    b' = b ∧ exists reason : String, e = .invalidOperation reason

theorem Puts.comesTo {write : Write Unit} {v : Value} (h : Puts write v) {b : Builder}
    (hrefused : ¬ HasRoom b -> exists misuse : Misuse, write.run b = .error misuse.error b) :
    ComesTo write v b := by
  by_cases room : HasRoom b
  · have run := h b room
    constructor
    · exact ⟨fun _ => room, fun _ => ⟨_, run⟩⟩
    · intro b' accepted
      cases run.symm.trans accepted
      exact place_of_hasRoom room v
    · intro b' accepted
      cases run.symm.trans accepted
      exact outer_put room v
    · intro e b' refused
      cases run.symm.trans refused
  · rcases hrefused room with ⟨misuse, run⟩
    constructor
    · constructor
      · intro haccepted
        rcases haccepted with ⟨b', accepted⟩
        cases run.symm.trans accepted
      · intro room'
        exact absurd room' room
    · intro b' accepted
      cases run.symm.trans accepted
    · intro b' accepted
      cases run.symm.trans accepted
    · intro e b' refused
      cases run.symm.trans refused
      exact ⟨rfl, misuse.message, rfl⟩

theorem openObject_bind_of_not_hasRoom {α : Type} {b : Builder} (h : ¬ HasRoom b)
    (f : Unit -> Write α) :
    exists misuse : Misuse, (openObject >>= f).run b = .error misuse.error b := by
  rcases checkRoom_of_not_hasRoom h "start_object" with ⟨misuse, run⟩
  exact ⟨misuse, run_bind_of_error (run_bind_of_error run)⟩

/-!
# Arrays under a name

The name of an array is accepted or refused as any other one. Once it is accepted, the scope of
the array is opened, and what its items leave is closed.
-/

theorem run_array_of_refused {name : String} {b b' : Builder} {e : Error}
    (h : (field name).run b = .error e b') (writes : List (Write Unit)) :
    (array name writes).run b = .error e b' :=
  run_bind_of_error h

theorem run_array_of_named (name : String) (writes : List (Write Unit)) (members : Members)
    (outer : List Scope) (root : Option Value) :
    (array name writes).run ⟨.object members none :: outer, root⟩ =
      (writes.forM id >>= fun _ => closeArray).run
        ⟨.array #[] :: .object members (some name) :: outer, root⟩ := by
  refine (run_bind_of_ok (Piece.write_of_step .field)).trans ?_
  exact run_bind_of_ok (Piece.write_of_step (.openArray .member))

/-!
# Items that append

The items are run one after the other, so the builders in which the later ones run have to be in
`P` as well: what is kept from item to item is that a value put where there is room does not lead
out of it.
-/

section

variable {P : Builder -> Prop}
  (hput : forall b : Builder, P b -> HasRoom b -> forall v : Value, P (b.put v))
  {writes : List (Write Unit)} {vs : List Value} (h : List.Forall₂ (AppendsIn P) writes vs)

include hput h

theorem run_forM_of_appendsIn {items : Array Value} {outer : List Scope} {root : Option Value}
    (hstart : P ⟨.array items :: outer, root⟩) :
    (writes.forM id).run ⟨.array items :: outer, root⟩ =
      .ok () ⟨.array (items ++ vs.toArray) :: outer, root⟩ := by
  induction h generalizing items with
  | nil =>
      rw [Array.append_empty]
      rfl
  | cons hfirst _ ih =>
      rename_i write v writes vs _
      change (write >>= fun _ => writes.forM id).run _ = _
      rw [run_bind_of_ok (hfirst items outer root hstart), ih (hput _ hstart .item v)]
      have hitems : items.push v ++ vs.toArray = items ++ (v :: vs).toArray := by
        apply Array.toList_inj.mp
        simp
      rw [hitems]

theorem run_array_of_appendsIn {name : String} {members : Members} {outer : List Scope}
    {root : Option Value}
    (hstart : P ⟨.array #[] :: .object members (some name) :: outer, root⟩) :
    (array name writes).run ⟨.object members none :: outer, root⟩ =
      .ok () ⟨.object (members.insert name (.array vs)) none :: outer, root⟩ := by
  rw [run_array_of_named, run_bind_of_ok (run_forM_of_appendsIn hput h hstart)]
  refine (Piece.write_of_step (.closeArray .member)).trans ?_
  simp [put]

end

theorem run_array_of_appends {writes : List (Write Unit)} {vs : List Value}
    (h : List.Forall₂ Appends writes vs) (name : String) (members : Members)
    (outer : List Scope) (root : Option Value) :
    (array name writes).run ⟨.object members none :: outer, root⟩ =
      .ok () ⟨.object (members.insert name (.array vs)) none :: outer, root⟩ :=
  run_array_of_appendsIn (fun _ _ _ _ => trivial)
    (h.imp fun _ _ happends => happends.appendsIn fun _ => True) trivial

/-- Items that append their values write the array of these values under its name, or are not even
begun because the name is refused. -/
theorem run_array_eq_fieldValue {writes : List (Write Unit)} {vs : List Value}
    (h : List.Forall₂ (AppendsIn Reachable) writes vs) {b : Builder} (hb : Reachable b)
    (name : String) : (array name writes).run b = (fieldValue name (.array vs)).run b := by
  rcases Piece.step_or_refused (.field name) hb.coherent.supported with
    ⟨named, step⟩ | ⟨misuse, refused⟩
  · have hopened := (hb.step step).step (.openArray step.hasRoom_of_field)
    cases step
    rename_i members outer root
    have hvalue : (fieldValue name (.array vs)).run ⟨.object members none :: outer, root⟩ =
        .ok () ⟨.object (members.insert name (.array vs)) none :: outer, root⟩ :=
      Call.fieldValue_of_steps (.cons .field (.single (.value .member)))
    rw [hvalue]
    apply run_array_of_appendsIn _ h hopened
    intro b hreachable room v
    exact hreachable.step (.value room)
  · exact (run_array_of_refused refused writes).trans (run_bind_of_error refused).symm

end Builder
end JsonBind
