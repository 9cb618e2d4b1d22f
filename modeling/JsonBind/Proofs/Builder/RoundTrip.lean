import JsonBind.Proofs.Builder.Step
import JsonBind.Proofs.Reader.Source
import JsonBind.Proofs.Sink

/-!
# What a builder renders reads back

The text of a builder's document, in either layout, is read back to that document with the
default settings, if it has no doubles and no repeated names, and is no deeper than
those settings allow.
-/

namespace JsonBind
namespace Builder

variable {b : Builder} {layout : Layout}

/-!
# Rendering
-/

theorem writeTo_of_finish_error {e : Error} (h : b.finish = .error e) (sink : Sink) :
    b.writeTo layout sink = (.error e, sink) := by
  unfold writeTo
  rw [h]

theorem writeTo_of_finish {root : Value} (h : b.finish = .ok root) (sink : Sink) :
    b.writeTo layout sink =
      ((sink.offer (Utf8.encode (root.text layout))).1.mapError fun refusal =>
          .serialization refusal.message,
        (sink.offer (Utf8.encode (root.text layout))).2) := by
  unfold writeTo
  rw [h]

/-- Rendering to text never fails where there is a document: a sink without a limit takes all of
it, and what it took is text. -/
theorem text_eq (b : Builder) (layout : Layout) :
    b.text layout = b.finish.map fun root => root.text layout := by
  unfold text
  cases h : b.finish with
  | error e =>
      rw [writeTo_of_finish_error h]
      rfl
  | ok root =>
      rw [writeTo_of_finish h, Sink.offer_of_room_eq_none rfl]
      simp [Sink.new, Except.mapError, Except.map, Utf8.decode?_encode]

theorem text_of_finish {v : Value} (h : b.finish = .ok v) (layout : Layout) :
    b.text layout = .ok (v.text layout) := by
  rw [text_eq, h]
  rfl

/-!
# Reading back
-/

theorem finish_of_value (v : Value) :
    exists b : Builder, (value v).run .empty = .ok () b ∧ b.finish = .ok v :=
  ⟨_, place_of_hasRoom .root v, rfl⟩

/-- Whatever calls made a builder hold `v`, and one call does, its text reads back to `v`. -/
theorem text_reads_back {v : Value} (hintegral : v.Integral) (hdistinct : v.Distinct)
    (hdepth : v.depth ≤ 64) (layout : Layout) :
    (exists b : Builder, (value v).run .empty = .ok () b ∧ b.finish = .ok v) ∧
      forall b : Builder, b.finish = .ok v ->
        exists text : String, b.text layout = .ok text ∧
          Document.ofText .default text = .ok ⟨v⟩ := by
  constructor
  · exact finish_of_value v
  · intro b hfinish
    have hfits : Reader.Fits Reader.maxLevels v :=
      ⟨hintegral, hdistinct, Nat.le_trans hdepth (by decide)⟩
    have hallowed : v.depth ≤ Settings.default.maxDepth.toNat := hdepth
    exists v.text layout
    constructor
    · exact text_of_finish hfinish layout
    · exact Document.ofText_text rfl hfits hallowed layout

def limits : Value :=
  .object
    [ ("least", .long Int64.minValue),
      ("\"\\\n\x01é", .number (.ofWord 0xffffffffffffffff)),
      ("", .array []),
      ("empty", .object []) ]

theorem fits_limits : Reader.Fits 2 limits := by
  apply Reader.Fits.object
  · decide
  · intro member hmem
    simp only [List.mem_cons, List.not_mem_nil, or_false] at hmem
    rcases hmem with rfl | rfl | rfl | rfl
    · exact .int 1 _
    · exact .int 1 _
    · exact .array (by simp)
    · exact .object (by simp [Members.names]) (by simp)

def nested (v : Value) : Nat -> Value
  | 0 => v
  | n + 1 => .array [nested v n]

theorem fits_nested {levels : Nat} {v : Value} (h : Reader.Fits levels v) (n : Nat) :
    Reader.Fits (levels + n) (nested v n) := by
  induction n with
  | zero => exact h
  | succ n ih => exact .array fun item hmem => List.mem_singleton.mp hmem ▸ ih

theorem depth_nested (v : Value) (n : Nat) : (nested v n).depth = v.depth + n := by
  induction n with
  | zero => rfl
  | succ n ih => simp [nested, Value.depth, Value.itemsDepth, ih, Nat.add_assoc]

theorem text_reads_back_deepest :
    (nested limits 62).Integral ∧ (nested limits 62).Distinct ∧ (nested limits 62).depth = 64 ∧
      exists text : String, Builder.text ⟨[], some (nested limits 62)⟩ .pretty = .ok text ∧
        Document.ofText .default text = .ok ⟨nested limits 62⟩ := by
  have hfits := fits_nested fits_limits 62
  have hdepth : (nested limits 62).depth = 64 := by
    rw [depth_nested]
    rfl
  refine ⟨hfits.integral, hfits.distinct, hdepth, ?_⟩
  exact (text_reads_back hfits.integral hfits.distinct hfits.depth .pretty).right _ rfl

end Builder
end JsonBind
