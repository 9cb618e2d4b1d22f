import JsonBind.Proofs.Builder.Array
import JsonBind.Proofs.Builder.Sentence
import JsonBind.Proofs.Value.Settled

/-!
# Writing a tree piece by piece

A tree is written whole by one call, or by a sequence of calls that opens each of its
containers, writes what is inside, and closes it again. Both come to the same, whatever
scopes are open around them: the calls of the sequence make a sentence, and where there is
no room for a value already the first of them is refused.
-/

namespace JsonBind
namespace Builder

/-!
# The calls of a tree
-/

mutual

def pieces : Value -> List Piece
  | .array items => .openArray :: itemsPieces items ++ [.closeArray]
  | .object members => .openObject :: membersPieces members ++ [.closeObject]
  | .null => [.value .null]
  | .bool flag => [.value (.bool flag)]
  | .number n => [.value (.number n)]
  | .string text => [.value (.string text)]

def itemsPieces : List Value -> List Piece
  | [] => []
  | item :: rest => pieces item ++ itemsPieces rest

def membersPieces : List (String × Value) -> List Piece
  | [] => []
  | (name, v) :: rest => .field name :: pieces v ++ membersPieces rest

end

def piecewise (v : Value) : Write Unit :=
  (pieces v).forM Piece.write

theorem itemsPieces_eq_flatMap (items : List Value) :
    itemsPieces items = (items.map fun item => (pieces item, item.settled)).flatMap (·.1) := by
  induction items with
  | nil => rfl
  | cons item rest ih => rw [itemsPieces, ih, List.map_cons, List.flatMap_cons]

theorem membersPieces_eq_flatMap (members : Members) :
    membersPieces members =
      (members.map fun member => (member.1, pieces member.2, member.2.settled)).flatMap
        memberPieces := by
  induction members with
  | nil => rfl
  | cons member rest ih =>
      rw [membersPieces, ih, List.map_cons, List.flatMap_cons]
      rfl

/-- The calls of a tree make one sentence. Names that are repeated in an object are settled on the
way, since its members are inserted one after the other. -/
theorem sentence_pieces (v : Value) : Sentence (pieces v) v.settled := by
  induction v using Value.induction with
  | null =>
      rw [pieces, Value.settled]
      exact .value .null
  | bool flag =>
      rw [pieces, Value.settled]
      exact .value (.bool flag)
  | number n =>
      rw [pieces, Value.settled]
      exact .value (.number n)
  | string text =>
      rw [pieces, Value.settled]
      exact .value (.string text)
  | array items ih =>
      have sentence := Sentence.array (items.map fun item => (pieces item, item.settled)) (by
        intro item hmem
        rcases List.mem_map.mp hmem with ⟨inner, hinner, rfl⟩
        exact ih inner hinner)
      rw [List.map_map] at sentence
      rw [pieces, itemsPieces_eq_flatMap, Value.settled_array]
      exact sentence
  | object members ih =>
      have sentence := Sentence.object
        (members.map fun member => (member.1, pieces member.2, member.2.settled)) (by
          intro member hmem
          rcases List.mem_map.mp hmem with ⟨inner, hinner, rfl⟩
          exact ih inner hinner)
      rw [memberWrites, List.map_map] at sentence
      rw [pieces, membersPieces_eq_flatMap, Value.settled_object]
      exact sentence

/-!
# Sentences that are run
-/

theorem Sentence.puts {ps : List Piece} {v : Value} (h : Sentence ps v) :
    Puts (ps.forM Piece.write) v :=
  fun b room => run_forM_of_steps (h.steps b room)

theorem Sentence.refused {ps : List Piece} {v : Value} (h : Sentence ps v) {b : Builder}
    (hfull : ¬ HasRoom b) :
    exists misuse : Misuse, (ps.forM Piece.write).run b = .error misuse.error b := by
  cases h with
  | value =>
      rcases place_of_not_hasRoom hfull v with ⟨misuse, run⟩
      exact ⟨misuse, run_bind_of_error run⟩
  | array items _ =>
      rcases checkRoom_of_not_hasRoom hfull "start_array" with ⟨misuse, run⟩
      exact ⟨misuse, run_bind_of_error (run_bind_of_error run)⟩
  | object members _ => exact openObject_bind_of_not_hasRoom hfull _

theorem Sentence.comesTo {ps : List Piece} {v : Value} (h : Sentence ps v) (b : Builder) :
    ComesTo (ps.forM Piece.write) v b :=
  h.puts.comesTo h.refused

theorem comesTo_value (v : Value) (b : Builder) : ComesTo (value v) v b :=
  Puts.comesTo (fun _ room => place_of_hasRoom room v) fun hfull => place_of_not_hasRoom hfull v

theorem ComesTo.accepted_iff {write : Write Unit} {v : Value} {b : Builder}
    (h : ComesTo write v b) :
    (exists b' : Builder, write.run b = .ok () b') <->
      exists b' : Builder, (value v).run b = .ok () b' :=
  h.accepted.trans (comesTo_value v b).accepted.symm

theorem ComesTo.after_eq {write : Write Unit} {v : Value} {b : Builder}
    (h : ComesTo write v b) : after write b = after (value v) b := by
  cases hrun : write.run b with
  | ok _ b' => rw [after, after, hrun, h.written b' hrun]
  | error e b' =>
      have hkept := (h.refused e b' hrun).left
      cases hvalue : (value v).run b with
      | ok _ b'' =>
          rcases h.accepted_iff.mpr ⟨b'', hvalue⟩ with ⟨_, accepted⟩
          cases hrun.symm.trans accepted
      | error e' b'' =>
          have hkept' := ((comesTo_value v b).refused e' b'' hvalue).left
          rw [after, after, hrun, hvalue, hkept, hkept']

/-- Wherever a builder stands, reachable or not, a tree is written by its sequence of calls exactly
if it is written by one call, and the builder that is left is the same in either case. Nothing of a
tree that is refused has been written. -/
theorem pieces_leave_what_value_leaves {v : Value} (hdistinct : v.Distinct) (b : Builder) :
    ((exists b' : Builder, (piecewise v).run b = .ok () b') <->
      exists b' : Builder, (value v).run b = .ok () b') ∧
    after (piecewise v) b = after (value v) b ∧
    forall (e : Error) (b' : Builder), (piecewise v).run b = .error e b' -> b' = b := by
  have sentence := sentence_pieces v
  rw [Value.settled_of_distinct hdistinct] at sentence
  have comesTo := sentence.comesTo b
  refine ⟨comesTo.accepted_iff, comesTo.after_eq, ?_⟩
  intro e b' refused
  exact (comesTo.refused e b' refused).left

def grouped : Value :=
  .object
    [ ("name", .string "count"),
      ("values", .array [.null, .object [("inner", .bool true)]]) ]

theorem distinct_grouped : grouped.Distinct := by
  have hinner : (Value.object [("inner", .bool true)]).Distinct := by
    apply Value.distinct_object (by simp [Members.names])
    intro member hmem
    rw [List.mem_singleton.mp hmem]
    exact Value.distinct_of_not_isContainer rfl
  have hvalues : (Value.array [.null, .object [("inner", .bool true)]]).Distinct := by
    apply Value.distinct_array
    intro item hmem
    rcases List.mem_pair.mp hmem with rfl | rfl
    · exact Value.distinct_of_not_isContainer rfl
    · exact hinner
  apply Value.distinct_object (by simp [Members.names])
  intro member hmem
  rcases List.mem_pair.mp hmem with rfl | rfl
  · exact Value.distinct_of_not_isContainer rfl
  · exact hvalues

/-- Behind a name within an array it is written, and the array keeps what it had. In an object
without a name that waits it is refused, and nothing has changed. -/
theorem pieces_leave_what_value_leaves_grouped :
    grouped.Distinct ∧
    after (piecewise grouped)
        ⟨[.object [("took", .long 3)] (some "groups"), .array #[.null]], none⟩ =
      ⟨[.object [("took", .long 3), ("groups", grouped)] none, .array #[.null]], none⟩ ∧
    after (piecewise grouped) ⟨[.object [] none], none⟩ = ⟨[.object [] none], none⟩ := by
  have written := pieces_leave_what_value_leaves distinct_grouped
    ⟨[.object [("took", .long 3)] (some "groups"), .array #[.null]], none⟩
  have refused := pieces_leave_what_value_leaves distinct_grouped ⟨[.object [] none], none⟩
  exact ⟨distinct_grouped, written.right.left.trans rfl, refused.right.left.trans rfl⟩

end Builder
end JsonBind
