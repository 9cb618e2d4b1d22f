import JsonBind.Proofs.Builder.Coherence

/-!
# Calls

A client makes calls of one piece, and calls that write a name with its value. It
also writes arrays whose items are written by clients of their own. Calls follow
each other whether they are accepted or refused.
-/

namespace JsonBind
namespace Builder

inductive Call where
  | piece (p : Piece)
  | fieldValue (name : String) (v : Value)
  | nullField (name : String)

namespace Call

def write : Call -> Write Unit
  | .piece p => p.write
  | .fieldValue name v => Builder.fieldValue name v
  | .nullField name => Builder.nullField name

def pieces : Call -> List Piece
  | .piece p => [p]
  | .fieldValue name v => [.field name, .value v]
  | .nullField name => [.field name, .value .null]

theorem pieces_ne_nil (c : Call) : c.pieces ≠ [] := by
  cases c <;> exact List.cons_ne_nil _ _

/-!
# A call does all of its pieces, or nothing
-/

theorem fieldValue_of_steps {name : String} {v : Value} {b b' : Builder}
    (h : Steps [.field name, .value v] b b') : (Builder.fieldValue name v).run b = .ok () b' := by
  cases h with
  | cons first rest =>
      cases rest with
      | cons second last =>
          cases last
          have hfield := Piece.write_of_step first
          have hvalue := Piece.write_of_step second
          exact (run_bind_of_ok hfield).trans hvalue

theorem fieldValue_steps_or_refused (name : String) (v : Value) {b : Builder}
    (h : Coherent b) :
    (exists b' : Builder, Steps [.field name, .value v] b b') ∨
      exists misuse : Misuse, (Builder.fieldValue name v).run b = .error misuse.error b := by
  rcases Piece.step_or_refused (.field name) h.supported with ⟨mid, first⟩ | ⟨misuse, refused⟩
  · exact Or.inl ⟨mid.put v, .cons first (.single (.value first.hasRoom_of_field))⟩
  · exact Or.inr ⟨misuse, run_bind_of_error refused⟩

theorem fieldValue_accepted_iff (name : String) (v : Value) {b : Builder} (h : Coherent b) :
    (exists b' : Builder, (Builder.fieldValue name v).run b = .ok () b') <->
      exists b' : Builder, (Builder.field name).run b = .ok () b' := by
  rcases Piece.step_or_refused (.field name) h.supported with ⟨mid, step⟩ | ⟨misuse, refused⟩
  · have steps : Steps [.field name, .value v] b (mid.put v) :=
      .cons step (.single (.value step.hasRoom_of_field))
    exact ⟨fun _ => ⟨mid, Piece.write_of_step step⟩, fun _ => ⟨_, fieldValue_of_steps steps⟩⟩
  · constructor
    · intro haccepted
      rcases haccepted with ⟨b', accepted⟩
      cases (run_bind_of_error refused).symm.trans accepted
    · intro haccepted
      rcases haccepted with ⟨b', accepted⟩
      cases refused.symm.trans accepted

theorem write_of_steps {c : Call} {b b' : Builder} (h : Steps c.pieces b b') :
    c.write.run b = .ok () b' := by
  cases c with
  | piece p =>
      cases h with
      | cons step rest =>
          cases rest
          exact Piece.write_of_step step
  | fieldValue name v => exact fieldValue_of_steps h
  | nullField name => exact fieldValue_of_steps h

theorem steps_or_refused (c : Call) {b : Builder} (h : Coherent b) :
    (exists b' : Builder, Steps c.pieces b b') ∨
      exists misuse : Misuse, c.write.run b = .error misuse.error b := by
  cases c with
  | piece p =>
      rcases Piece.step_or_refused p h.supported with ⟨b', step⟩ | refused
      · exact Or.inl ⟨b', .single step⟩
      · exact Or.inr refused
  | fieldValue name v => exact fieldValue_steps_or_refused name v h
  | nullField name => exact fieldValue_steps_or_refused name .null h

theorem error_keeps {c : Call} {b b' : Builder} {e : Error} (h : Coherent b)
    (refused : c.write.run b = .error e b') : b' = b := by
  rcases c.steps_or_refused h with ⟨reached, steps⟩ | ⟨misuse, run⟩
  · rw [write_of_steps steps] at refused
    cases refused
  · rw [run] at refused
    cases refused
    rfl

end Call

/-!
# Clients

An item of an array is written by acts of its own, up to the first one that is
refused. What they have written by then stays written.
-/

inductive Act where
  | call (c : Call)
  | array (name : String) (items : List (List Act))

namespace Act

mutual

def write : Act -> Write Unit
  | .call c => c.write
  | .array name items => Builder.array name (itemWrites items)

def writeAll : List Act -> Write Unit
  | [] => return ()
  | act :: acts => do
      act.write
      writeAll acts

def itemWrites : List (List Act) -> List (Write Unit)
  | [] => []
  | acts :: items => writeAll acts :: itemWrites items

end

theorem writeAll_append (first rest : List Act) :
    writeAll (first ++ rest) = writeAll first >>= fun _ => writeAll rest := by
  induction first with
  | nil => rfl
  | cons act acts ih => rw [List.cons_append, writeAll, writeAll, ih, bind_assoc]

theorem itemWrites_eq_map (items : List (List Act)) : itemWrites items = items.map writeAll := by
  induction items with
  | nil => rfl
  | cons acts items ih => rw [itemWrites, ih, List.map_cons]

end Act

def after {α : Type} (w : Write α) (b : Builder) : Builder :=
  match w.run b with
  | .ok _ b' => b'
  | .error _ b' => b'

/-- The builders that acts can make out of a new one, refused acts among them. -/
inductive Reachable : Builder -> Prop where
  | empty : Reachable .empty
  | act {b : Builder} (a : Act) : Reachable b -> Reachable (after a.write b)

/-!
# What every run of calls keeps
-/

def Keeps {α : Type} (P : Builder -> Prop) (w : Write α) : Prop :=
  forall b : Builder, P b -> P (after w b)

theorem keeps_pure {α : Type} (P : Builder -> Prop) (a : α) : Keeps P (pure a) :=
  fun _ h => h

theorem keeps_bind {α β : Type} {P : Builder -> Prop} {x : Write α} {f : α -> Write β}
    (hx : Keeps P x) (hf : forall a : α, Keeps P (f a)) : Keeps P (x >>= f) := by
  intro b h
  have hmid := hx b h
  unfold after at hmid ⊢
  cases run : x.run b with
  | ok a mid =>
      rw [run] at hmid
      rw [run_bind_of_ok run]
      exact hf a mid hmid
  | error e mid =>
      rw [run] at hmid
      rw [run_bind_of_error run]
      exact hmid

theorem keeps_forM {P : Builder -> Prop} {ws : List (Write Unit)}
    (h : forall w : Write Unit, w ∈ ws -> Keeps P w) : Keeps P (ws.forM id) := by
  induction ws with
  | nil => exact keeps_pure P ()
  | cons w rest ih =>
      change Keeps P (w >>= fun _ => rest.forM id)
      exact keeps_bind (h w List.mem_cons_self)
        fun _ => ih fun w' hmem => h w' (List.mem_cons_of_mem w hmem)

theorem keeps_array {P : Builder -> Prop} (hpiece : forall p : Piece, Keeps P p.write)
    (name : String) {ws : List (Write Unit)}
    (h : forall w : Write Unit, w ∈ ws -> Keeps P w) : Keeps P (Builder.array name ws) := by
  apply keeps_bind (hpiece (.field name))
  intro _
  apply keeps_bind (hpiece .openArray)
  intro _
  exact keeps_bind (keeps_forM h) fun _ => hpiece .closeArray

mutual

theorem Act.keeps_write {P : Builder -> Prop} (hcall : forall c : Call, Keeps P c.write) :
    forall a : Act, Keeps P a.write
  | .call c => by
      rw [Act.write]
      exact hcall c
  | .array name items => by
      rw [Act.write]
      exact keeps_array (fun p => hcall (.piece p)) name (Act.keeps_itemWrites hcall items)

theorem Act.keeps_writeAll {P : Builder -> Prop} (hcall : forall c : Call, Keeps P c.write) :
    forall acts : List Act, Keeps P (Act.writeAll acts)
  | [] => by
      rw [Act.writeAll]
      exact keeps_pure P ()
  | a :: acts => by
      rw [Act.writeAll]
      exact keeps_bind (Act.keeps_write hcall a) fun _ => Act.keeps_writeAll hcall acts

theorem Act.keeps_itemWrites {P : Builder -> Prop}
    (hcall : forall c : Call, Keeps P c.write) :
    forall (items : List (List Act)) (w : Write Unit), w ∈ Act.itemWrites items -> Keeps P w
  | [], _, h => by
      rw [Act.itemWrites] at h
      cases h
  | acts :: items, w, h => by
      rw [Act.itemWrites] at h
      cases h with
      | head => exact Act.keeps_writeAll hcall acts
      | tail _ hrest => exact Act.keeps_itemWrites hcall items w hrest

end

theorem Call.keeps_coherent (c : Call) : Keeps Coherent c.write := by
  intro b h
  unfold after
  rcases c.steps_or_refused h with ⟨b', steps⟩ | ⟨misuse, refused⟩
  · rw [Call.write_of_steps steps]
    exact h.steps steps
  · rw [refused]
    exact h

theorem Reachable.coherent {b : Builder} (h : Reachable b) : Coherent b := by
  induction h with
  | empty => exact coherent_empty
  | act a _ ih => exact Act.keeps_write Call.keeps_coherent a _ ih

theorem Reachable.step {p : Piece} {b b' : Builder} (h : Reachable b) (step : Step p b b') :
    Reachable b' := by
  have hafter := Reachable.act (.call (.piece p)) h
  rw [Act.write, Call.write, after, Piece.write_of_step step] at hafter
  exact hafter

/-- A refused call leaves the builder exactly as it was. -/
theorem refused_call_keeps {b b' : Builder} (h : Reachable b) (c : Call) (e : Error)
    (refused : c.write.run b = .error e b') : b' = b :=
  c.error_keeps h.coherent refused

def abandoned : Builder :=
  ⟨[.object [] (some "x"), .array #[], .object [] (some "records")], none⟩

theorem reachable_abandoned : Reachable abandoned :=
  .act
    (.array "records"
      [[.call (.piece .openObject), .call (.piece (.field "x")), .call (.piece .closeArray)]])
    (.act (.call (.piece .openObject)) .empty)

theorem refused_call_keeps_abandoned :
    exists b' : Builder,
      (Call.piece .closeObject).write.run abandoned =
          .error (Misuse.nameWithoutValue "x").error b' ∧
        b' = abandoned :=
  ⟨abandoned, rfl,
    refused_call_keeps reachable_abandoned (.piece .closeObject)
      (Misuse.nameWithoutValue "x").error rfl⟩

end Builder
end JsonBind
