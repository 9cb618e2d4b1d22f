import JsonBind.Proofs.Builder.Sentence

/-!
# Runs of calls

A run makes calls one after the other and goes on when one is refused. Only the
accepted calls count: their pieces, in order, lead from the first builder to the
last one. What a new builder has become by the end tells whether they make a
sentence, and which tree it denotes.
-/

namespace JsonBind
namespace Builder

def accepts (b : Builder) (c : Call) : Bool :=
  match c.write.run b with
  | .ok _ _ => true
  | .error _ _ => false

def afterAll (calls : List Call) (b : Builder) : Builder :=
  match calls with
  | [] => b
  | c :: calls => afterAll calls (after c.write b)

def accepted (calls : List Call) (b : Builder) : List Call :=
  match calls with
  | [] => []
  | c :: calls =>
      if accepts b c then c :: accepted calls (after c.write b)
      else accepted calls (after c.write b)

def acceptedPieces (calls : List Call) (b : Builder) : List Piece :=
  (accepted calls b).flatMap Call.pieces

theorem accepts_of_steps {c : Call} {b b' : Builder} (h : Steps c.pieces b b') :
    accepts b c = true ∧ after c.write b = b' := by
  have run := Call.write_of_steps h
  constructor
  · rw [accepts, run]
  · rw [after, run]

theorem not_accepts_of_refused {c : Call} {b : Builder} {e : Error}
    (h : c.write.run b = .error e b) : accepts b c = false ∧ after c.write b = b := by
  constructor
  · rw [accepts, h]
  · rw [after, h]

theorem steps_acceptedPieces {b : Builder} (h : Coherent b) (calls : List Call) :
    Steps (acceptedPieces calls b) b (afterAll calls b) := by
  induction calls generalizing b with
  | nil => exact .nil b
  | cons c calls ih =>
      rcases c.steps_or_refused h with ⟨b', steps⟩ | ⟨misuse, refused⟩
      · rcases accepts_of_steps steps with ⟨haccepts, hafter⟩
        rw [acceptedPieces, accepted, afterAll, if_pos haccepts, hafter, List.flatMap_cons]
        exact steps.append (ih (h.steps steps))
      · rcases not_accepts_of_refused refused with ⟨hrefused, hafter⟩
        rw [acceptedPieces, accepted, afterAll, if_neg (by simp [hrefused]), hafter]
        exact ih h

theorem written_afterAll (calls : List Call) :
    Written (acceptedPieces calls .empty) (afterAll calls .empty) :=
  (Written.unfinished .nil).steps (steps_acceptedPieces coherent_empty calls)

/-!
# Finishing
-/

theorem Written.eq_nil_of_no_scopes {ps : List Piece} (h : Opened ps []) : ps = [] := by
  cases h
  rfl

theorem accepted_eq_nil {calls : List Call} {b : Builder} (h : acceptedPieces calls b = []) :
    accepted calls b = [] := by
  rw [acceptedPieces, List.flatMap_eq_nil_iff] at h
  cases hcalls : accepted calls b with
  | nil => rfl
  | cons c rest =>
      rw [hcalls] at h
      exact absurd (h c List.mem_cons_self) c.pieces_ne_nil

/-- A sentence leaves what it denotes as the root of a new builder, and nothing else does. -/
theorem finish_eq_ok_iff {ps : List Piece} {b : Builder} (h : Written ps b)
    (steps : Steps ps .empty b) (v : Value) : b.finish = .ok v <-> Sentence ps v := by
  constructor
  · intro hfinish
    cases h with
    | finished sentence =>
        cases hfinish
        exact sentence
    | unfinished opened =>
        rename_i scopes
        cases scopes <;> cases hfinish
  · intro sentence
    have direct : Steps ps .empty ⟨[], some v⟩ := sentence.steps .empty .root
    rw [steps.unique direct]
    rfl

/-- A run of calls finishes with a tree exactly if its accepted calls make one sentence, and the
tree is what that denotes. Otherwise nothing was accepted, or containers are open. In the tree of an
object a name stands where it came first, with the value that came last. -/
theorem finish_afterAll_iff (calls : List Call) :
    (forall v : Value,
      (afterAll calls .empty).finish = .ok v <-> Sentence (acceptedPieces calls .empty) v) ∧
    ((exists v : Value, Sentence (acceptedPieces calls .empty) v) ∨
      (accepted calls .empty = [] ∧
        (afterAll calls .empty).finish = .error (.invalidOperation "nothing was written")) ∨
      exists n : Nat, 0 < n ∧
        (acceptedPieces calls .empty).countP Piece.isOpening =
          (acceptedPieces calls .empty).countP Piece.isClosing + n ∧
        (afterAll calls .empty).finish =
          .error (.invalidOperation
            (String.ofList (Nat.toDigits 10 n) ++ " scope(s) still open"))) ∧
    forall writes : List (String × Value),
      (Members.ofWrites writes).names = (writes.map (·.1)).eraseDups ∧
        forall name : String,
          (Members.ofWrites writes).lookup name = writes.reverse.lookup name := by
  have written := written_afterAll calls
  have steps := steps_acceptedPieces coherent_empty calls
  refine ⟨finish_eq_ok_iff written steps, ?_, ?_⟩
  · generalize afterAll calls .empty = b at written
    cases written with
    | finished sentence => exact Or.inl ⟨_, sentence⟩
    | unfinished opened =>
        rename_i scopes
        apply Or.inr
        cases scopes with
        | nil =>
            have nothing := Written.eq_nil_of_no_scopes opened
            exact Or.inl ⟨accepted_eq_nil nothing, rfl⟩
        | cons scope outer =>
            exact Or.inr ⟨outer.length + 1, Nat.succ_pos _, opened.unbalanced, rfl⟩
  · intro writes
    exact ⟨Members.names_ofWrites writes, fun name => Members.lookup_ofWrites name writes⟩

example :
    (afterAll
      [.piece .closeArray, .piece .openObject, .fieldValue "a" (.bool true), .piece .openArray,
        .nullField "b", .fieldValue "a" (.bool false), .piece .closeObject, .nullField "c"]
      .empty).finish = .ok (.object [("a", .bool false), ("b", .null)]) := by
  rfl

end Builder
end JsonBind
