import JsonBind.Builder

/-!
# Steps of a builder

A builder takes six kinds of pieces. This module says once what each of them can
do: which builders take it, and what they turn into. Everything else about runs
of calls is derived from that.
-/

namespace JsonBind
namespace Builder

inductive Piece where
  | openObject
  | closeObject
  | openArray
  | closeArray
  | field (name : String)
  | value (v : Value)

namespace Piece

def write : Piece -> Write Unit
  | .openObject => Builder.openObject
  | .closeObject => Builder.closeObject
  | .openArray => Builder.openArray
  | .closeArray => Builder.closeArray
  | .field name => Builder.field name
  | .value v => Builder.value v

end Piece

/-!
# Room for a value

A value goes to the root if nothing is there and nothing is open, to the end of
an open array, or under the name that waits in an open object.
-/

inductive HasRoom : Builder -> Prop where
  | root : HasRoom ⟨[], none⟩
  | item {items : Array Value} {outer : List Scope} {root : Option Value} :
      HasRoom ⟨.array items :: outer, root⟩
  | member {members : Members} {name : String} {outer : List Scope} {root : Option Value} :
      HasRoom ⟨.object members (some name) :: outer, root⟩

def put (builder : Builder) (v : Value) : Builder :=
  match builder with
  | ⟨[], none⟩ => ⟨[], some v⟩
  | ⟨.array items :: outer, root⟩ => ⟨.array (items.push v) :: outer, root⟩
  | ⟨.object members (some name) :: outer, root⟩ =>
      ⟨.object (members.insert name v) none :: outer, root⟩
  | builder => builder

theorem place_of_hasRoom {b : Builder} (h : HasRoom b) (v : Value) :
    (place v).run b = .ok () (b.put v) := by
  cases h <;> rfl

theorem place_of_not_hasRoom {b : Builder} (h : ¬ HasRoom b) (v : Value) :
    exists misuse : Misuse, (place v).run b = .error misuse.error b := by
  rcases b with ⟨_ | ⟨⟨members, _ | name⟩ | items, outer⟩, root⟩
  · cases root with
    | none => exact absurd HasRoom.root h
    | some root => exact ⟨.secondRoot, rfl⟩
  · exact ⟨.valueWithoutName, rfl⟩
  · exact absurd HasRoom.member h
  · exact absurd HasRoom.item h

theorem outer_put {b : Builder} (h : HasRoom b) (v : Value) :
    (b.put v).scopes.length = b.scopes.length ∧ (b.put v).scopes.tail = b.scopes.tail := by
  cases h <;> exact ⟨rfl, rfl⟩

theorem checkRoom_of_hasRoom {b : Builder} (h : HasRoom b) (call : String) :
    (checkRoom call).run b = .ok () b := by
  cases h <;> rfl

theorem checkRoom_of_not_hasRoom {b : Builder} (h : ¬ HasRoom b) (call : String) :
    exists misuse : Misuse, (checkRoom call).run b = .error misuse.error b := by
  rcases b with ⟨_ | ⟨⟨members, _ | name⟩ | items, outer⟩, root⟩
  · cases root with
    | none => exact absurd HasRoom.root h
    | some root => exact ⟨.secondRoot, rfl⟩
  · exact ⟨.containerWithoutName call, rfl⟩
  · exact absurd HasRoom.member h
  · exact absurd HasRoom.item h

/-!
# Steps
-/

inductive Step : Piece -> Builder -> Builder -> Prop where
  | openObject {b : Builder} :
      HasRoom b ->
      Step .openObject b { b with scopes := .object [] none :: b.scopes }
  | openArray {b : Builder} :
      HasRoom b ->
      Step .openArray b { b with scopes := .array #[] :: b.scopes }
  | closeObject {members : Members} {outer : List Scope} {root : Option Value} :
      HasRoom ⟨outer, root⟩ ->
      Step .closeObject ⟨.object members none :: outer, root⟩
        (put ⟨outer, root⟩ (.object members))
  | closeArray {items : Array Value} {outer : List Scope} {root : Option Value} :
      HasRoom ⟨outer, root⟩ ->
      Step .closeArray ⟨.array items :: outer, root⟩ (put ⟨outer, root⟩ (.array items.toList))
  | field {name : String} {members : Members} {outer : List Scope} {root : Option Value} :
      Step (.field name) ⟨.object members none :: outer, root⟩
        ⟨.object members (some name) :: outer, root⟩
  | value {v : Value} {b : Builder} :
      HasRoom b ->
      Step (.value v) b (b.put v)

theorem Step.hasRoom_of_field {name : String} {b b' : Builder} (h : Step (.field name) b b') :
    HasRoom b' := by
  cases h
  exact HasRoom.member

/-- Below the innermost scope there is room for what it will become. -/
def Supported (b : Builder) : Prop :=
  forall (scope : Scope) (outer : List Scope),
    b.scopes = scope :: outer -> HasRoom ⟨outer, b.root⟩

/-!
# Running a piece

A piece either takes its step, or is refused. A container is closed in two
moves: its scope goes, and then the value is put. The second one could only be
refused where the builder below has no room.
-/

theorem run_bind_of_ok {α β : Type} {x : Write α} {f : α -> Write β} {b b' : Builder} {a : α}
    (h : x.run b = .ok a b') : (x >>= f).run b = (f a).run b' := by
  change EStateM.bind x f b = f a b'
  change x b = .ok a b' at h
  rw [EStateM.bind, h]

theorem run_bind_of_error {α β : Type} {x : Write α} {f : α -> Write β} {b b' : Builder}
    {e : Error} (h : x.run b = .error e b') : (x >>= f).run b = .error e b' := by
  change EStateM.bind x f b = .error e b'
  change x b = .error e b' at h
  rw [EStateM.bind, h]

namespace Piece

theorem write_of_step {p : Piece} {b b' : Builder} (h : Step p b b') :
    p.write.run b = .ok () b' := by
  cases h with
  | openObject room =>
      exact run_bind_of_ok (checkRoom_of_hasRoom room "start_object")
  | openArray room =>
      exact run_bind_of_ok (checkRoom_of_hasRoom room "start_array")
  | closeObject room =>
      rename_i members outer root
      exact place_of_hasRoom room (.object members)
  | closeArray room =>
      rename_i items outer root
      exact place_of_hasRoom room (.array items.toList)
  | field => rfl
  | value room =>
      rename_i v
      exact place_of_hasRoom room v

theorem step_unique {p : Piece} {b first second : Builder} (h : Step p b first)
    (h' : Step p b second) : first = second := by
  have run := write_of_step h
  rw [write_of_step h'] at run
  cases run
  rfl

theorem step_or_refused (p : Piece) {b : Builder} (h : Supported b) :
    (exists b' : Builder, Step p b b') ∨
      exists misuse : Misuse, p.write.run b = .error misuse.error b := by
  cases p with
  | openObject =>
      by_cases room : HasRoom b
      · exact Or.inl ⟨_, .openObject room⟩
      · rcases checkRoom_of_not_hasRoom room "start_object" with ⟨misuse, run⟩
        exact Or.inr ⟨misuse, run_bind_of_error run⟩
  | openArray =>
      by_cases room : HasRoom b
      · exact Or.inl ⟨_, .openArray room⟩
      · rcases checkRoom_of_not_hasRoom room "start_array" with ⟨misuse, run⟩
        exact Or.inr ⟨misuse, run_bind_of_error run⟩
  | closeObject =>
      rcases b with ⟨_ | ⟨⟨members, _ | name⟩ | items, outer⟩, root⟩
      · exact Or.inr ⟨.objectEndOutside, rfl⟩
      · exact Or.inl ⟨_, .closeObject (h _ outer rfl)⟩
      · exact Or.inr ⟨.nameWithoutValue name, rfl⟩
      · exact Or.inr ⟨.objectEndInArray, rfl⟩
  | closeArray =>
      rcases b with ⟨_ | ⟨⟨members, pending⟩ | items, outer⟩, root⟩
      · exact Or.inr ⟨.arrayEndOutside, rfl⟩
      · exact Or.inr ⟨.arrayEndInObject, rfl⟩
      · exact Or.inl ⟨_, .closeArray (h _ outer rfl)⟩
  | field name =>
      rcases b with ⟨_ | ⟨⟨members, _ | pending⟩ | items, outer⟩, root⟩
      · exact Or.inr ⟨.nameOutsideObject name, rfl⟩
      · exact Or.inl ⟨_, .field⟩
      · exact Or.inr ⟨.nameWithoutValue pending, rfl⟩
      · exact Or.inr ⟨.nameOutsideObject name, rfl⟩
  | value v =>
      by_cases room : HasRoom b
      · exact Or.inl ⟨_, .value room⟩
      · rcases place_of_not_hasRoom room v with ⟨misuse, run⟩
        exact Or.inr ⟨misuse, run⟩

theorem step_of_write {p : Piece} {b b' : Builder} (h : Supported b)
    (run : p.write.run b = .ok () b') : Step p b b' := by
  rcases step_or_refused p h with ⟨reached, step⟩ | ⟨misuse, refused⟩
  · rw [write_of_step step] at run
    cases run
    exact step
  · rw [refused] at run
    cases run

end Piece

/-!
# Sequences of steps
-/

inductive Steps : List Piece -> Builder -> Builder -> Prop where
  | nil (b : Builder) : Steps [] b b
  | cons {p : Piece} {ps : List Piece} {b mid b' : Builder} :
      Step p b mid ->
      Steps ps mid b' ->
      Steps (p :: ps) b b'

theorem Steps.single {p : Piece} {b b' : Builder} (h : Step p b b') : Steps [p] b b' :=
  .cons h (.nil b')

theorem Steps.append {ps qs : List Piece} {b mid b' : Builder} (h : Steps ps b mid)
    (h' : Steps qs mid b') : Steps (ps ++ qs) b b' := by
  induction h with
  | nil _ => exact h'
  | cons step _ ih => exact .cons step (ih h')

theorem Steps.unique {ps : List Piece} {b first second : Builder} (h : Steps ps b first)
    (h' : Steps ps b second) : first = second := by
  induction h with
  | nil _ =>
      cases h'
      rfl
  | cons step _ ih =>
      cases h' with
      | cons step' rest' =>
          rw [Piece.step_unique step' step] at rest'
          exact ih rest'

theorem run_forM_of_steps {ps : List Piece} {b b' : Builder} (h : Steps ps b b') :
    (ps.forM Piece.write).run b = .ok () b' := by
  induction h with
  | nil _ => rfl
  | cons step _ ih => exact (run_bind_of_ok (Piece.write_of_step step)).trans ih

end Builder
end JsonBind
