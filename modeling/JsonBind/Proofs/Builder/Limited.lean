import JsonBind.Proofs.Builder.RoundTrip

/-!
# Writing into a sink with a limit

A document that is finished has a text, and a sink that has room for only some bytes of it
takes just these. That the sink refused the others is an error of writing; that there was
no document to write is a misuse of the builder, and then the sink is not even asked.
-/

namespace JsonBind
namespace Builder

variable {b : Builder} {layout : Layout}

theorem finish_eq_error {e : Error} (h : b.finish = .error e) :
    exists reason : String, e = .invalidOperation reason := by
  unfold finish at h
  split at h
  · cases h
  · cases h
    exact ⟨_, rfl⟩
  · cases h
    exact ⟨_, rfl⟩

theorem writeTo_of_room {root : Value} (h : b.finish = .ok root) (limit : Nat)
    (refusal : Refusal) :
    b.writeTo layout (.new (some limit) refusal) =
      (if (Utf8.encode (root.text layout)).length ≤ limit then .ok ()
        else .error (.serialization refusal.message),
        { room := some (limit - (Utf8.encode (root.text layout)).length)
          refusal
          taken := ((Utf8.encode (root.text layout)).take limit).toArray }) := by
  rw [writeTo_of_finish h, Sink.offer_of_room_eq_some rfl]
  dsimp only
  split
  · simp [Sink.new, Except.mapError]
  · simp [Sink.new, Except.mapError]

/-- Writing a builder's document into a sink that takes so many bytes, and refuses the rest in
either way. If there is no document, that is the error, and no byte is taken. If there is one, it
has a text, which a sink without a limit takes whole; the sink takes the first bytes of the text up
to its limit, and writing fails, with an error of writing, just if the text is longer. In which
pieces the text is written makes no difference. -/
theorem writeTo_limited (b : Builder) (layout : Layout) (limit : Nat) (refusal : Refusal) :
    (forall e : Error, b.finish = .error e ->
      (exists reason : String, e = .invalidOperation reason) ∧
        b.writeTo layout (.new (some limit) refusal) = (.error e, .new (some limit) refusal)) ∧
    forall root : Value, b.finish = .ok root ->
      exists text : String, b.text layout = .ok text ∧
        b.writeTo layout (.new none refusal) =
          (.ok (), ⟨none, refusal, (Utf8.encode text).toArray⟩) ∧
        forall (result : Except Error Unit) (sink : Sink),
          b.writeTo layout (.new (some limit) refusal) = (result, sink) ->
            sink.taken.toList = (Utf8.encode text).take limit ∧
            sink.taken.size = min limit (Utf8.encode text).length ∧
            (result = .ok () <-> (Utf8.encode text).length ≤ limit) ∧
            (forall e : Error, result = .error e -> e = .serialization refusal.message) ∧
            forall pieces : List (List UInt8), pieces.flatten = Utf8.encode text ->
              ((Sink.new (some limit) refusal).offerAll pieces).2 = sink ∧
                (((Sink.new (some limit) refusal).offerAll pieces).1 = .ok () <->
                  result = .ok ()) := by
  constructor
  · intro e hfinish
    exact ⟨finish_eq_error hfinish, writeTo_of_finish_error hfinish _⟩
  · intro root hfinish
    refine ⟨root.text layout, text_of_finish hfinish layout, ?_, ?_⟩
    · rw [writeTo_of_finish hfinish, Sink.offer_of_room_eq_none rfl]
      simp [Sink.new, Except.mapError]
    · intro result sink hwrite
      rw [writeTo_of_room hfinish] at hwrite
      cases hwrite
      refine ⟨rfl, by simp, by simp, ?_, ?_⟩
      · intro e herror
        split at herror
        · cases herror
        · cases herror
          rfl
      · intro pieces hpieces
        rw [Sink.offerAll_eq, hpieces, Sink.offer_of_room_eq_some rfl]
        simp [Sink.new]

/-- The limit falls within the name, between the two bytes of its character. -/
theorem writeTo_limited_in_char :
    finish ⟨[], some (.object [("é", .null)])⟩ = .ok (.object [("é", .null)]) ∧
      (writeTo ⟨[], some (.object [("é", .null)])⟩ .pretty (.new (some 6) .tookNothing)).2.taken =
        #[0x7b, 0x0a, 0x20, 0x20, 0x22, 0xc3] ∧
      (writeTo ⟨[], some (.object [("é", .null)])⟩ .pretty (.new (some 6) .tookNothing)).1 ≠
        .ok () := by
  have hfinish : finish ⟨[], some (.object [("é", .null)])⟩ = .ok (.object [("é", .null)]) := rfl
  rcases (writeTo_limited _ .pretty 6 .tookNothing).right _ hfinish with ⟨text, htext, _, hlimited⟩
  cases (text_of_finish hfinish .pretty).symm.trans htext
  rcases hlimited _ _ rfl with ⟨htaken, _, hok, _⟩
  refine ⟨hfinish, Array.toList_inj.mp (htaken.trans rfl), ?_⟩
  intro h
  exact absurd (hok.mp h) (by decide)

end Builder
end JsonBind
