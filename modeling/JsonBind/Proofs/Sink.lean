import JsonBind.Sink

/-!
# What a sink takes
-/

namespace JsonBind
namespace Sink

theorem offer_of_room_eq_none {sink : Sink} (h : sink.room = none) (bytes : List UInt8) :
    sink.offer bytes = (.ok (), { sink with taken := sink.taken ++ bytes.toArray }) := by
  induction bytes generalizing sink with
  | nil => simp [offer]
  | cons byte bytes ih =>
      unfold offer
      rw [h]
      rw [ih rfl]
      simp

theorem offer_of_room_eq_some {sink : Sink} {limit : Nat} (h : sink.room = some limit)
    (bytes : List UInt8) :
    sink.offer bytes =
      (if bytes.length ≤ limit then .ok () else .error sink.refusal,
        { sink with
          room := some (limit - bytes.length)
          taken := sink.taken ++ (bytes.take limit).toArray }) := by
  induction bytes generalizing sink limit with
  | nil =>
      rcases sink with ⟨room, refusal, taken⟩
      cases h
      simp [offer]
  | cons byte bytes ih =>
      unfold offer
      rw [h]
      cases limit with
      | zero =>
          rcases sink with ⟨room, refusal, taken⟩
          cases h
          simp
      | succ limit =>
          dsimp only
          rw [ih rfl]
          simp

/-!
# Pieces

A text is written piece by piece. What was refused of one piece is not made up for by the next.
-/

def offerAll (sink : Sink) : List (List UInt8) -> Except Refusal Unit × Sink
  | [] => (.ok (), sink)
  | piece :: pieces =>
      match sink.offer piece with
      | (.ok (), sink) => offerAll sink pieces
      | (.error refusal, sink) => (.error refusal, sink)

theorem offer_append (sink : Sink) (first second : List UInt8) :
    sink.offer (first ++ second) =
      match sink.offer first with
      | (.ok (), sink) => sink.offer second
      | (.error refusal, sink) => (.error refusal, sink) := by
  induction first generalizing sink with
  | nil => rfl
  | cons byte first ih =>
      rw [List.cons_append, offer, offer]
      cases sink.room with
      | none => exact ih _
      | some room =>
          cases room with
          | zero => rfl
          | succ room => exact ih _

theorem offerAll_eq (sink : Sink) (pieces : List (List UInt8)) :
    sink.offerAll pieces = sink.offer pieces.flatten := by
  induction pieces generalizing sink with
  | nil => rfl
  | cons piece pieces ih =>
      rw [List.flatten_cons, offer_append, offerAll]
      cases sink.offer piece with
      | mk result left =>
          cases result with
          | error refusal => rfl
          | ok _ => exact ih left

end Sink
end JsonBind
