import JsonBind.Proofs.Builder.Run

/-!
# Completing documents

A builder takes no piece that leads nowhere. Whatever it has come to, it can be wound up:
a name that waits gets a value, and what is open is closed, one scope after the other. So
the pieces that a new builder takes are the beginnings of sentences, and those are all
that it takes.
-/

namespace JsonBind
namespace Builder

/-!
# Winding up

Winding up takes no look at the builder. At each turn it tries to close an object, then to
close an array, then to write a value, and it ends with the turn in which all three are
refused.
-/

inductive Turn where
  | closed
  | filled
  | stuck

/-- One turn of winding up, and the builder that it leaves. -/
def turn (x : Value) (b : Builder) : Turn × Builder :=
  match closeObject.run b with
  | .ok _ b => (.closed, b)
  | .error _ b =>
      match closeArray.run b with
      | .ok _ b => (.closed, b)
      | .error _ b =>
          match (value x).run b with
          | .ok _ b => (.filled, b)
          | .error _ b => (.stuck, b)

inductive WindsUp (x : Value) : Builder -> Nat -> Builder -> Prop where
  | stuck {b last : Builder} :
      turn x b = (.stuck, last) ->
      WindsUp x b 0 last
  | filled {b next last : Builder} {closed : Nat} :
      turn x b = (.filled, next) ->
      WindsUp x next closed last ->
      WindsUp x b closed last
  | closed {b next last : Builder} {closed : Nat} :
      turn x b = (.closed, next) ->
      WindsUp x next closed last ->
      WindsUp x b (closed + 1) last

theorem windsUp_iff {x : Value} {b last : Builder} {closed : Nat} :
    WindsUp x b closed last <->
      match turn x b with
      | (.stuck, left) => closed = 0 ∧ last = left
      | (.filled, next) => WindsUp x next closed last
      | (.closed, next) =>
          exists others : Nat, closed = others + 1 ∧ WindsUp x next others last := by
  constructor
  · intro h
    cases h with
    | stuck hturn =>
        rw [hturn]
        exact ⟨rfl, rfl⟩
    | filled hturn rest =>
        rw [hturn]
        exact rest
    | closed hturn rest =>
        rw [hturn]
        exact ⟨_, rfl, rest⟩
  · intro h
    split at h
    · rename_i hturn
      rcases h with ⟨rfl, rfl⟩
      exact .stuck hturn
    · rename_i hturn
      exact .filled hturn h
    · rename_i hturn
      rcases h with ⟨others, rfl, rest⟩
      exact .closed hturn rest

theorem WindsUp.unique {x : Value} {b last last' : Builder} {closed closed' : Nat}
    (h : WindsUp x b closed last) (h' : WindsUp x b closed' last') :
    closed = closed' ∧ last = last' := by
  induction h generalizing closed' with
  | stuck hturn =>
      rw [windsUp_iff, hturn] at h'
      rcases h' with ⟨rfl, rfl⟩
      exact ⟨rfl, rfl⟩
  | filled hturn _ ih =>
      rw [windsUp_iff, hturn] at h'
      exact ih h'
  | closed hturn _ ih =>
      rw [windsUp_iff, hturn] at h'
      rcases h' with ⟨others, rfl, rest⟩
      rcases ih rest with ⟨rfl, rfl⟩
      exact ⟨rfl, rfl⟩

def turnsLeft : Builder -> Nat
  | ⟨[], none⟩ => 1
  | ⟨[], some _⟩ => 0
  | ⟨.object _ (some _) :: outer, _⟩ => outer.length + 2
  | ⟨_ :: outer, _⟩ => outer.length + 1

theorem turnsLeft_put {b : Builder} (room : HasRoom b) (v : Value) :
    (b.put v).turnsLeft = b.scopes.length := by
  cases room <;> rfl

inductive Turns (x : Value) (b : Builder) : Prop where
  | stuck (v : Value) :
      b = ⟨[], some v⟩ ->
      turn x b = (.stuck, b) ->
      Turns x b
  | filled {next : Builder} :
      turn x b = (.filled, next) ->
      Step (.value x) b next ->
      b.turnsLeft = next.turnsLeft + 1 ->
      b.scopes.length = next.scopes.length ->
      Turns x b
  | closed {p : Piece} {next : Builder} :
      turn x b = (.closed, next) ->
      Step p b next ->
      b.turnsLeft = next.turnsLeft + 1 ->
      b.scopes.length = next.scopes.length + 1 ->
      Turns x b

theorem turn_of_closeObject {x : Value} {b next : Builder} (h : Step .closeObject b next) :
    turn x b = (.closed, next) := by
  have run : closeObject.run b = .ok () next := Piece.write_of_step h
  rw [turn, run]

theorem turn_of_closeArray {x : Value} {b next : Builder} (h : Step .closeArray b next) :
    turn x b = (.closed, next) := by
  have run : closeArray.run b = .ok () next := Piece.write_of_step h
  have refused : closeObject.run b = .error Misuse.objectEndInArray.error b := by
    cases h
    rfl
  simp only [turn, refused, run]

theorem Coherent.turns {b : Builder} (h : Coherent b) (x : Value) : Turns x b := by
  rcases b with ⟨_ | ⟨⟨members, _ | name⟩ | items, outer⟩, root⟩
  · cases root with
    | none => exact .filled rfl (.value .root) rfl rfl
    | some v => exact .stuck v rfl rfl
  · have room : HasRoom ⟨outer, root⟩ := h.supported _ outer rfl
    have hturns := turnsLeft_put room (.object members)
    have hlength := (outer_put room (.object members)).left
    refine .closed (turn_of_closeObject (.closeObject room)) (.closeObject room) ?_ ?_
    · rw [hturns]
      rfl
    · rw [hlength]
      rfl
  · exact .filled rfl (.value .member) rfl rfl
  · have room : HasRoom ⟨outer, root⟩ := h.supported _ outer rfl
    have hturns := turnsLeft_put room (.array items.toList)
    have hlength := (outer_put room (.array items.toList)).left
    refine .closed (turn_of_closeArray (.closeArray room)) (.closeArray room) ?_ ?_
    · rw [hturns]
      rfl
    · rw [hlength]
      rfl

/-- Winding up a coherent builder ends with a document. Each of its scopes is closed once, and the
pieces that were written are steps of the builder. -/
theorem Coherent.exists_windsUp {b : Builder} (h : Coherent b) (x : Value) :
    exists (ps : List Piece) (v : Value),
      Steps ps b ⟨[], some v⟩ ∧ WindsUp x b b.scopes.length ⟨[], some v⟩ := by
  induction hleft : b.turnsLeft generalizing b with
  | zero =>
      cases h.turns x with
      | stuck v hb hturn =>
          subst hb
          exact ⟨[], v, .nil _, .stuck hturn⟩
      | filled _ _ hturns _ => omega
      | closed _ _ hturns _ => omega
  | succ n ih =>
      cases h.turns x with
      | stuck v hb hturn =>
          subst hb
          cases hleft
      | filled hturn step hturns hlength =>
          rcases ih (h.step step) (by omega) with ⟨ps, v, steps, windsUp⟩
          rw [hlength]
          exact ⟨_, v, .cons step steps, .filled hturn windsUp⟩
      | closed hturn step hturns hlength =>
          rcases ih (h.step step) (by omega) with ⟨ps, v, steps, windsUp⟩
          rw [hlength]
          exact ⟨_, v, .cons step steps, .closed hturn windsUp⟩

/-!
# Viable pieces

Pieces are viable if they are the beginning of a sentence.
-/

def Viable (ps : List Piece) : Prop :=
  exists (whole : List Piece) (v : Value), Sentence whole v ∧ ps <+: whole

theorem Steps.exists_of_append {ps qs : List Piece} {b b' : Builder} (h : Steps (ps ++ qs) b b') :
    exists mid : Builder, Steps ps b mid ∧ Steps qs mid b' := by
  induction ps generalizing b with
  | nil => exact ⟨b, .nil b, h⟩
  | cons p ps ih =>
      cases h with
      | cons step rest =>
          rcases ih rest with ⟨mid, before, behind⟩
          exact ⟨mid, .cons step before, behind⟩

theorem viable_iff_steps (ps : List Piece) :
    Viable ps <-> exists b : Builder, Steps ps .empty b := by
  constructor
  · rintro ⟨whole, v, sentence, behind, rfl⟩
    rcases Steps.exists_of_append (sentence.steps .empty .root) with ⟨b, steps, _⟩
    exact ⟨b, steps⟩
  · rintro ⟨b, steps⟩
    rcases (coherent_empty.steps steps).exists_windsUp .null with ⟨behind, v, completed, _⟩
    have written : Written (ps ++ behind) ⟨[], some v⟩ :=
      (Written.unfinished .nil).steps (steps.append completed)
    cases written with
    | finished sentence => exact ⟨ps ++ behind, v, sentence, List.prefix_append ps behind⟩

theorem run_forM_eq_ok_iff {ps : List Piece} {b b' : Builder} (h : Coherent b) :
    (ps.forM Piece.write).run b = .ok () b' <-> Steps ps b b' := by
  constructor
  · intro run
    induction ps generalizing b with
    | nil =>
        cases run
        exact .nil _
    | cons p ps ih =>
        change (p.write >>= fun _ => ps.forM Piece.write).run b = .ok () b' at run
        rcases p.step_or_refused h.supported with ⟨mid, step⟩ | ⟨misuse, refused⟩
        · rw [run_bind_of_ok (Piece.write_of_step step)] at run
          exact .cons step (ih (h.step step) run)
        · rw [run_bind_of_error refused] at run
          cases run
  · exact run_forM_of_steps

theorem accepts_piece_iff {p : Piece} {b : Builder} (h : Coherent b) :
    accepts b (.piece p) = true <-> exists b' : Builder, Step p b b' := by
  rcases p.step_or_refused h.supported with ⟨mid, step⟩ | ⟨misuse, refused⟩
  · rw [(accepts_of_steps (c := .piece p) (.single step)).left]
    exact ⟨fun _ => ⟨mid, step⟩, fun _ => rfl⟩
  · rw [(not_accepts_of_refused (c := .piece p) refused).left]
    constructor
    · intro heq
      cases heq
    · rintro ⟨b', step⟩
      rw [Piece.write_of_step step] at refused
      cases refused

/-- Behind pieces that a new builder has taken, it takes one more exactly if all of them together
are the beginning of a sentence. No client can make a builder that cannot be finished: winding it
up ends, closes as many scopes as were open, and leaves a document. -/
theorem accepts_iff_viable_and_windsUp :
    (forall (ps : List Piece) (b : Builder), (ps.forM Piece.write).run .empty = .ok () b ->
      forall p : Piece, accepts b (.piece p) = true <-> Viable (ps ++ [p])) ∧
    forall (b : Builder) (x : Value), Reachable b ->
      (exists (closed : Nat) (last : Builder), WindsUp x b closed last) ∧
      forall (closed : Nat) (last : Builder), WindsUp x b closed last ->
        closed = b.scopes.length ∧ exists v : Value, last.finish = .ok v := by
  constructor
  · intro ps b run p
    have steps : Steps ps .empty b := (run_forM_eq_ok_iff coherent_empty).mp run
    rw [accepts_piece_iff (coherent_empty.steps steps), viable_iff_steps]
    constructor
    · rintro ⟨b', step⟩
      exact ⟨b', steps.append (.single step)⟩
    · rintro ⟨b', longer⟩
      rcases longer.exists_of_append with ⟨mid, before, last⟩
      cases last with
      | cons step rest =>
          cases before.unique steps
          exact ⟨_, step⟩
  · intro b x hreachable
    rcases hreachable.coherent.exists_windsUp x with ⟨ps, v, _, windsUp⟩
    refine ⟨⟨_, _, windsUp⟩, ?_⟩
    intro closed last other
    rcases other.unique windsUp with ⟨rfl, rfl⟩
    exact ⟨rfl, v, rfl⟩

/-- An opened object takes a name, and one behind that is refused; the builder that an abandoned
item left is wound up all the same. -/
theorem accepts_iff_viable_and_windsUp_abandoned :
    (accepts ⟨[.object [] none], none⟩ (.piece (.field "a")) = true ∧
      Viable [.openObject, .field "a"]) ∧
    (accepts ⟨[.object [] (some "a")], none⟩ (.piece (.field "b")) = false ∧
      ¬ Viable [.openObject, .field "a", .field "b"]) ∧
    exists (closed : Nat) (last : Builder), WindsUp .null abandoned closed last ∧ closed = 3 ∧
      exists v : Value, last.finish = .ok v := by
  have taken := accepts_iff_viable_and_windsUp.left [.openObject] _ rfl (.field "a")
  have refused := accepts_iff_viable_and_windsUp.left [.openObject, .field "a"] _ rfl (.field "b")
  rcases accepts_iff_viable_and_windsUp.right abandoned .null reachable_abandoned with
    ⟨⟨closed, last, windsUp⟩, hall⟩
  refine ⟨⟨rfl, taken.mp rfl⟩, ⟨rfl, ?_⟩, closed, last, windsUp, hall closed last windsUp⟩
  intro viable
  cases refused.mpr viable

end Builder
end JsonBind
