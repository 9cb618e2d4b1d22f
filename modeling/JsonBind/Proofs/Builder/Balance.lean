import JsonBind.Proofs.Builder.Array
import JsonBind.Proofs.Builder.Sentence

/-!
# Items that keep to their array

An item of an array is written by calls of its own, and nothing keeps it from closing scopes
that it has not opened, or from leaving its own scopes open. Items that close what they open,
and nothing else, do not touch what is around the array. But nothing is rolled back when one
of them is refused: the array stays open, with all that has been written into it.
-/

namespace JsonBind
namespace Builder

/-!
# Scopes that are changed in place

Pieces that neither open nor close a scope change the innermost one. What it holds and what it
waits for may be different then, but an object remains an object, and an array an array.
-/

inductive Alike : Scope -> Scope -> Prop where
  | object {members members' : Members} {pending pending' : Option String} :
      Alike (.object members pending) (.object members' pending')
  | array {items items' : Array Value} : Alike (.array items) (.array items')

theorem Alike.refl (scope : Scope) : Alike scope scope := by
  cases scope with
  | object members pending => exact .object
  | array items => exact .array

theorem Alike.trans {first second third : Scope} (h : Alike first second)
    (h' : Alike second third) : Alike first third := by
  cases h with
  | object =>
      cases h'
      exact .object
  | array =>
      cases h'
      exact .array

section

variable {p : Piece} {scope : Scope} {outer : List Scope} {root : Option Value} {b b' : Builder}

theorem alike_put (room : HasRoom ⟨scope :: outer, root⟩) (v : Value) :
    exists scope' : Scope, Alike scope scope' ∧
      put ⟨scope :: outer, root⟩ v = ⟨scope' :: outer, root⟩ := by
  cases room with
  | item => exact ⟨_, .array, rfl⟩
  | member => exact ⟨_, .object, rfl⟩

theorem Step.alike (step : Step p ⟨scope :: outer, root⟩ b')
    (hflat : p.isOpening = false ∧ p.isClosing = false) :
    exists scope' : Scope, Alike scope scope' ∧ b' = ⟨scope' :: outer, root⟩ := by
  cases step with
  | openObject _ => cases hflat.left
  | openArray _ => cases hflat.left
  | closeObject _ => cases hflat.right
  | closeArray _ => cases hflat.right
  | field => exact ⟨_, .object, rfl⟩
  | value room => exact alike_put room _

theorem Step.opened (step : Step p b b') (h : p.isOpening = true) :
    HasRoom b ∧ exists scope' : Scope, b' = { b with scopes := scope' :: b.scopes } := by
  cases step with
  | openObject room => exact ⟨room, _, rfl⟩
  | openArray room => exact ⟨room, _, rfl⟩
  | closeObject _ => cases h
  | closeArray _ => cases h
  | field => cases h
  | value _ => cases h

theorem Step.closed (step : Step p ⟨scope :: outer, root⟩ b') (h : p.isClosing = true) :
    exists v : Value, b' = put ⟨outer, root⟩ v := by
  cases step with
  | openObject _ => cases h
  | openArray _ => cases h
  | closeObject _ => exact ⟨_, rfl⟩
  | closeArray _ => exact ⟨_, rfl⟩
  | field => cases h
  | value _ => cases h

theorem Steps.alike {ps : List Piece} (steps : Steps ps ⟨scope :: outer, root⟩ b')
    (hflat : forall p : Piece, p ∈ ps -> p.isOpening = false ∧ p.isClosing = false) :
    exists scope' : Scope, Alike scope scope' ∧ b' = ⟨scope' :: outer, root⟩ := by
  induction ps generalizing scope with
  | nil =>
      cases steps
      exact ⟨scope, .refl scope, rfl⟩
  | cons p ps ih =>
      cases steps with
      | cons step rest =>
          rcases step.alike (hflat p List.mem_cons_self) with ⟨mid, hmid, rfl⟩
          rcases ih rest fun q hmem => hflat q (List.mem_cons_of_mem p hmem) with ⟨last, hlast, hb⟩
          exact ⟨last, hmid.trans hlast, hb⟩

end

/-!
# Confined runs

A confined run reaches no further than the innermost scope. Accepted, it leaves that scope
innermost; refused, it may leave scopes of its own open in it.
-/

inductive Leaves (scope : Scope) (outer : List Scope) : EStateM.Result Error Builder Unit -> Prop
    where
  | accepted {scope' : Scope} :
      Alike scope scope' ->
      Coherent ⟨scope' :: outer, none⟩ ->
      Leaves scope outer (.ok () ⟨scope' :: outer, none⟩)
  | refused {e : Error} {scope' : Scope} (inner : List Scope) :
      Alike scope scope' ->
      Leaves scope outer (.error e ⟨inner ++ scope' :: outer, none⟩)

def Confined (write : Write Unit) : Prop :=
  forall (scope : Scope) (outer : List Scope), Coherent ⟨scope :: outer, none⟩ ->
    Leaves scope outer (write.run ⟨scope :: outer, none⟩)

theorem Leaves.of_alike {scope scope' : Scope} {outer : List Scope}
    {result : EStateM.Result Error Builder Unit} (halike : Alike scope scope')
    (h : Leaves scope' outer result) : Leaves scope outer result := by
  cases h with
  | accepted hrest hcoherent => exact .accepted (halike.trans hrest) hcoherent
  | refused inner hrest => exact .refused inner (halike.trans hrest)

theorem confined_pure : Confined (pure ()) :=
  fun scope _ h => .accepted (.refl scope) h

theorem Confined.bind {first rest : Write Unit} (hfirst : Confined first) (hrest : Confined rest) :
    Confined (first >>= fun _ => rest) := by
  intro scope outer h
  have hleaves := hfirst scope outer h
  generalize hrun : first.run ⟨scope :: outer, none⟩ = result at hleaves
  cases hleaves with
  | accepted halike hcoherent =>
      rw [run_bind_of_ok hrun]
      exact (hrest _ _ hcoherent).of_alike halike
  | refused inner halike =>
      rw [run_bind_of_error hrun]
      exact .refused inner halike

theorem confined_forM {writes : List (Write Unit)}
    (h : forall write : Write Unit, write ∈ writes -> Confined write) :
    Confined (writes.forM id) := by
  induction writes with
  | nil => exact confined_pure
  | cons write writes ih =>
      change Confined (write >>= fun _ => writes.forM id)
      exact (h write List.mem_cons_self).bind
        (ih fun other hmem => h other (List.mem_cons_of_mem write hmem))

theorem confined_call {c : Call}
    (hflat : forall p : Piece, p ∈ c.pieces -> p.isOpening = false ∧ p.isClosing = false) :
    Confined c.write := by
  intro scope outer h
  rcases c.steps_or_refused h with ⟨b', steps⟩ | ⟨misuse, refused⟩
  · rw [Call.write_of_steps steps]
    have hcoherent := h.steps steps
    rcases steps.alike hflat with ⟨scope', halike, rfl⟩
    exact .accepted halike hcoherent
  · rw [refused]
    exact .refused [] (.refl scope)

/-- What is confined to a scope is confined to the scope around it, if that scope is opened before
and closed behind. There is room for the closed scope because there was for opening it. -/
theorem confined_scope {opening closing : Piece} (hopening : opening.isOpening = true)
    (hclosing : closing.isClosing = true) {inside : Write Unit} (hinside : Confined inside) :
    Confined (opening.write >>= fun _ => inside >>= fun _ => closing.write) := by
  intro scope outer h
  rcases opening.step_or_refused h.supported with ⟨opened, step⟩ | ⟨misuse, refused⟩
  · rw [run_bind_of_ok (Piece.write_of_step step)]
    have hopened := h.step step
    rcases step.opened hopening with ⟨room, own, rfl⟩
    have hleaves := hinside own (scope :: outer) hopened
    generalize hrun : inside.run ⟨own :: scope :: outer, none⟩ = result at hleaves
    cases hleaves with
    | accepted _ hcoherent =>
        rename_i own' _
        rw [run_bind_of_ok hrun]
        rcases closing.step_or_refused hcoherent.supported with ⟨b', last⟩ | ⟨misuse, refused⟩
        · rw [Piece.write_of_step last]
          have hlast := hcoherent.step last
          rcases last.closed hclosing with ⟨v, rfl⟩
          rcases alike_put room v with ⟨scope', halike, hput⟩
          rw [hput] at hlast ⊢
          exact .accepted halike hlast
        · rw [refused]
          exact .refused [own'] (.refl scope)
    | refused inner _ =>
        rename_i own' _
        rw [run_bind_of_error hrun, List.append_cons]
        exact .refused (inner ++ [own']) (.refl scope)
  · rw [run_bind_of_error refused]
    exact .refused [] (.refl scope)

theorem confined_array (name : String) {writes : List (Write Unit)}
    (h : forall write : Write Unit, write ∈ writes -> Confined write) :
    Confined (array name writes) := by
  have hname : Confined (field name) := by
    refine confined_call (c := .piece (.field name)) ?_
    intro p hmem
    cases List.mem_singleton.mp hmem
    exact ⟨rfl, rfl⟩
  have hitems : Confined (Piece.openArray.write >>= fun _ =>
      writes.forM id >>= fun _ => Piece.closeArray.write) :=
    confined_scope rfl rfl (confined_forM h)
  exact hname.bind hitems

/-!
# Balanced acts

Acts are balanced if each scope that they open is closed by them, and no other one is; what they
write within arrays of their own is balanced as well.
-/

inductive Balanced : List Act -> Prop where
  | nil : Balanced []
  | call {c : Call} {acts : List Act} :
      (forall p : Piece, p ∈ c.pieces -> p.isOpening = false ∧ p.isClosing = false) ->
      Balanced acts ->
      Balanced (.call c :: acts)
  | scope {opening closing : Piece} {inside acts : List Act} :
      opening.isOpening = true ->
      closing.isClosing = true ->
      Balanced inside ->
      Balanced acts ->
      Balanced (.call (.piece opening) :: (inside ++ .call (.piece closing) :: acts))
  | array {name : String} {items : List (List Act)} {acts : List Act} :
      (forall item : List Act, item ∈ items -> Balanced item) ->
      Balanced acts ->
      Balanced (.array name items :: acts)

theorem confined_itemWrites {items : List (List Act)}
    (h : forall item : List Act, item ∈ items -> Confined (Act.writeAll item)) :
    forall write : Write Unit, write ∈ Act.itemWrites items -> Confined write := by
  intro write hmem
  rw [Act.itemWrites_eq_map] at hmem
  rcases List.mem_map.mp hmem with ⟨item, hitem, rfl⟩
  exact h item hitem

theorem Balanced.confined {acts : List Act} (h : Balanced acts) : Confined (Act.writeAll acts) := by
  induction h with
  | nil =>
      rw [Act.writeAll]
      exact confined_pure
  | call hflat _ ih =>
      rw [Act.writeAll, Act.write]
      exact (confined_call hflat).bind ih
  | scope hopening hclosing _ _ hinside hacts =>
      rw [Act.writeAll, Act.writeAll_append, Act.writeAll, Act.write, Act.write]
      have hscope := (confined_scope hopening hclosing hinside).bind hacts
      simp only [bind_assoc] at hscope
      exact hscope
  | array _ _ hitems hacts =>
      rw [Act.writeAll, Act.write]
      exact (confined_array _ (confined_itemWrites hitems)).bind hacts

/-!
# Arrays of acts
-/

/-- The builder that the items of an array leave, where the array is opened under `name` in an
object. -/
def itemsLeft (name : String) (items : List (List Act)) (members : Members)
    (outer : List Scope) : Builder :=
  after ((Act.itemWrites items).forM id) ⟨.array #[] :: .object members (some name) :: outer, none⟩

theorem Coherent.arrayOpened {members : Members} {outer : List Scope}
    (h : Coherent ⟨.object members none :: outer, none⟩) (name : String) :
    Coherent ⟨.array #[] :: .object members (some name) :: outer, none⟩ := by
  have hnamed : Coherent ⟨.object members (some name) :: outer, none⟩ := h.step .field
  exact hnamed.step (.openArray .member)

theorem coherent_itemsLeft (name : String) {members : Members} {outer : List Scope}
    (h : Coherent ⟨.object members none :: outer, none⟩) (items : List (List Act)) :
    Coherent (itemsLeft name items members outer) :=
  keeps_forM (Act.keeps_itemWrites Call.keeps_coherent items) _ (h.arrayOpened name)

theorem closeArray_behind {write : Write Unit} {b : Builder} (h : Coherent (after write b)) :
    (forall (e : Error) (b' : Builder),
      (write >>= fun _ => closeArray).run b = .error e b' -> b' = after write b) ∧
    forall b' : Builder, (write >>= fun _ => closeArray).run b = .ok () b' ->
      Step .closeArray (after write b) b' := by
  unfold after at h ⊢
  cases hrun : write.run b with
  | ok _ left =>
      rw [run_bind_of_ok hrun]
      rw [hrun] at h
      constructor
      · intro e b' refused
        exact Call.error_keeps (c := .piece .closeArray) h refused
      · intro b' accepted
        exact Piece.step_of_write h.supported accepted
  | error e left =>
      rw [run_bind_of_error hrun]
      constructor
      · intro e' b' refused
        cases refused
        rfl
      · intro b' accepted
        cases accepted

theorem run_array_of_balanced {items : List (List Act)}
    (hitems : forall item : List Act, item ∈ items -> Balanced item) {members : Members}
    {outer : List Scope} (h : Coherent ⟨.object members none :: outer, none⟩) (name : String) :
    (exists (left : Builder) (values : List Value),
      ((Act.itemWrites items).forM id).run
          ⟨.array #[] :: .object members (some name) :: outer, none⟩ = .ok () left ∧
        (array name (Act.itemWrites items)).run ⟨.object members none :: outer, none⟩ =
          .ok () ⟨.object (members.insert name (.array values)) none :: outer, none⟩) ∨
    exists (e : Error) (left : Builder) (inner : List Scope) (values : Array Value),
      ((Act.itemWrites items).forM id).run
          ⟨.array #[] :: .object members (some name) :: outer, none⟩ = .error e left ∧
        (array name (Act.itemWrites items)).run ⟨.object members none :: outer, none⟩ =
          .error e ⟨inner ++ .array values :: .object members (some name) :: outer, none⟩ := by
  have hconfined := confined_forM
    (confined_itemWrites fun item hmem => (hitems item hmem).confined)
  have hleaves := hconfined _ _ (h.arrayOpened name)
  rw [run_array_of_named]
  generalize hrun : ((Act.itemWrites items).forM id).run
    ⟨.array #[] :: .object members (some name) :: outer, none⟩ = result at hleaves
  cases hleaves with
  | accepted halike _ =>
      cases halike
      rw [run_bind_of_ok hrun]
      exact Or.inl ⟨_, _, rfl, Piece.write_of_step (.closeArray .member)⟩
  | refused inner halike =>
      cases halike
      exact Or.inr ⟨_, _, inner, _, rfl, run_bind_of_error hrun⟩

theorem ne_of_scopes_above {own scope scope' : Scope} {outer : List Scope}
    (inner : List Scope) (root : Option Value) :
    (⟨inner ++ own :: scope :: outer, root⟩ : Builder) ≠ ⟨scope' :: outer, root⟩ := by
  intro heq
  have hlength := congrArg (fun b => b.scopes.length) heq
  simp only [List.length_append, List.length_cons] at hlength
  omega

/-- A refused name leaves the builder as it was. Behind an accepted one nothing is taken back: an
array that fails leaves what its items left, and one that is accepted has closed the array that
they left innermost, whichever it is.

Balanced items make it the array of the name. It is accepted then if all of them are, and only its
member has changed. If one is refused, the name still waits and the array is still open, so the
builder is not what it was. -/
theorem array_leaves_what_items_left {b : Builder} (h : Reachable b) (name : String)
    (items : List (List Act)) :
    (exists misuse : Misuse, (field name).run b = .error misuse.error b ∧
      (Act.array name items).write.run b = .error misuse.error b) ∨
    exists (members : Members) (outer : List Scope), b = ⟨.object members none :: outer, none⟩ ∧
      (forall (e : Error) (b' : Builder), (Act.array name items).write.run b = .error e b' ->
        b' = itemsLeft name items members outer) ∧
      (forall b' : Builder, (Act.array name items).write.run b = .ok () b' ->
        Step .closeArray (itemsLeft name items members outer) b') ∧
      ((forall item : List Act, item ∈ items -> Balanced item) ->
        ((exists b' : Builder, (Act.array name items).write.run b = .ok () b') <->
          exists left : Builder, ((Act.itemWrites items).forM id).run
            ⟨.array #[] :: .object members (some name) :: outer, none⟩ = .ok () left) ∧
        (forall b' : Builder, (Act.array name items).write.run b = .ok () b' ->
          exists values : List Value,
            b' = ⟨.object (members.insert name (.array values)) none :: outer, none⟩) ∧
        forall (e : Error) (b' : Builder), (Act.array name items).write.run b = .error e b' ->
          b' ≠ b ∧ exists (inner : List Scope) (values : Array Value),
            b' = ⟨inner ++ .array values :: .object members (some name) :: outer, none⟩) := by
  have hcoherent := h.coherent
  rw [Act.write]
  rcases Piece.step_or_refused (.field name) hcoherent.supported with ⟨named, step⟩ | refused
  · cases step
    rename_i members outer root
    cases hcoherent.root_eq_none
    have hbehind := closeArray_behind (coherent_itemsLeft name hcoherent items)
    rw [← run_array_of_named] at hbehind
    refine Or.inr ⟨members, outer, rfl, hbehind.left, hbehind.right, ?_⟩
    intro hitems
    rcases run_array_of_balanced hitems hcoherent name with
      ⟨left, values, hleft, run⟩ | ⟨e, left, inner, values, hleft, run⟩
    · rw [run, hleft]
      refine ⟨by simp, ?_, ?_⟩
      · intro b' accepted
        cases accepted
        exact ⟨values, rfl⟩
      · intro e b' refused
        cases refused
    · rw [run, hleft]
      refine ⟨by simp, ?_, ?_⟩
      · intro b' accepted
        cases accepted
      · intro e' b' refused
        cases refused
        exact ⟨ne_of_scopes_above _ _, inner, values, rfl⟩
  · rcases refused with ⟨misuse, refused⟩
    exact Or.inl ⟨misuse, refused, run_array_of_refused refused _⟩

def halfway : List (List Act) :=
  [[.call (.piece (.value .null))],
    [.call (.piece .openObject), .call (.piece (.field "x")), .call (.piece .closeObject)]]

theorem balanced_halfway : forall item : List Act, item ∈ halfway -> Balanced item := by
  intro item hmem
  simp only [halfway, List.mem_cons, List.not_mem_nil, or_false] at hmem
  rcases hmem with rfl | rfl
  · exact .call (by simp [Call.pieces, Piece.isOpening, Piece.isClosing]) .nil
  · have hname : Balanced [.call (.piece (.field "x"))] :=
      .call (by simp [Call.pieces, Piece.isOpening, Piece.isClosing]) .nil
    have hobject : Balanced (.call (.piece .openObject) ::
        ([.call (.piece (.field "x"))] ++ .call (.piece .closeObject) :: [])) :=
      .scope rfl rfl hname .nil
    exact hobject

theorem array_leaves_what_items_left_halfway :
    Reachable ⟨[.object [] none], none⟩ ∧
    (forall item : List Act, item ∈ halfway -> Balanced item) ∧
    exists (e : Error) (b' : Builder),
      (Act.array "records" halfway).write.run ⟨[.object [] none], none⟩ = .error e b' ∧
        b' = ⟨[.object [] (some "x"), .array #[.null], .object [] (some "records")], none⟩ ∧
        b' ≠ ⟨[.object [] none], none⟩ ∧
        exists (inner : List Scope) (values : Array Value),
          b' = ⟨inner ++ [.array values, .object [] (some "records")], none⟩ := by
  have hopened : Reachable ⟨[.object [] none], none⟩ :=
    .act (.call (.piece .openObject)) .empty
  rcases array_leaves_what_items_left hopened "records" halfway with
    ⟨misuse, refused, _⟩ | ⟨members, outer, hb, _, _, hbalanced⟩
  · cases refused
  · cases hb
    rcases hbalanced balanced_halfway with ⟨_, _, hleft⟩
    exact ⟨hopened, balanced_halfway, _, _, rfl, rfl, hleft _ _ rfl⟩

/-- An array may fail with all of it left open, and it may be accepted while it is still open: the
end that it wrote has closed another array, which an item had left open. -/
theorem array_neither_rolled_back_nor_closed :
    (¬ forall b : Builder, Reachable b -> forall (name : String) (items : List (List Act))
      (e : Error) (b' : Builder), (Act.array name items).write.run b = .error e b' -> b' = b) ∧
    ¬ forall b : Builder, Reachable b -> forall (name : String) (items : List (List Act))
      (b' : Builder), (Act.array name items).write.run b = .ok () b' ->
        exists (members : Members) (outer : List Scope) (root : Option Value)
          (values : List Value), b = ⟨.object members none :: outer, root⟩ ∧
            b' = ⟨.object (members.insert name (.array values)) none :: outer, root⟩ := by
  have hopened : Reachable ⟨[.object [] none], none⟩ :=
    .act (.call (.piece .openObject)) .empty
  constructor
  · intro h
    have hsame := h _ hopened "records" [[.call (.nullField "x")]]
      (Misuse.nameOutsideObject "x").error ⟨[.array #[], .object [] (some "records")], none⟩ rfl
    cases hsame
  · intro h
    rcases h _ hopened "records" [[.call (.piece .openArray)]]
      ⟨[.array #[.array []], .object [] (some "records")], none⟩ rfl with
      ⟨members, outer, root, values, hbefore, hbehind⟩
    cases hbefore
    cases hbehind

end Builder
end JsonBind
