import JsonBind.Document
import JsonBind.Proofs.Reader.Tree

/-!
# Sources and what is read of them

Pulling a stream empty gives all that it serves, whatever its chunks are. The one
value of a text is read by some root. If that reads back a tree, then so does
reading the text of the tree, and so does the document of the text, where the
settings let the tree pass.
-/

namespace JsonBind

open Scan (Reads)
open Reader (ReadsBack)

variable {α : Type}

/-!
# Streams
-/

namespace Stream

theorem served_eq (stream : Stream) :
    stream.served =
      match stream.pull with
      | .byte value rest => (value :: rest.served.1, rest.served.2)
      | .ended => ([], .clean)
      | .failed reason => ([], .broken reason) := by
  fun_induction pull stream with
  | case1 => rfl
  | case2 first reads => rfl
  | case3 first second more reads => rfl
  | case4 reads ih => exact ih
  | case5 reason reads => rfl

theorem drain_eq_served (stream : Stream) : stream.drain = stream.served := by
  fun_induction drain stream with
  | case1 stream value rest hpull bytes ending hdrain ih =>
      rw [served_eq stream, hpull]
      dsimp only
      rw [← ih, hdrain]
  | case2 stream hpull => rw [served_eq stream, hpull]
  | case3 stream reason hpull => rw [served_eq stream, hpull]

theorem served_append {reads : Stream} {bytes : List UInt8}
    (h : reads.served = (bytes, .clean)) (later : Stream) :
    Stream.served (reads ++ later) = (bytes ++ later.served.1, later.served.2) := by
  induction reads generalizing bytes with
  | nil =>
      cases h
      rfl
  | cons read reads ih =>
      cases read with
      | chunk first more =>
          simp only [served, Prod.mk.injEq] at h
          rcases h with ⟨rfl, hending⟩
          have hreads : Stream.served reads = ((Stream.served reads).1, .clean) := by
            rw [← hending]
          simp [served, ih hreads]
      | interrupted => exact ih h
      | failed reason => cases h

end Stream

/-- In what chunks a stream serves, and how often it is interrupted, makes no difference. -/
theorem Source.ofStream_eq (stream : Stream) :
    ofStream stream = ⟨stream.served.1, stream.served.2, true⟩ := by
  unfold ofStream
  rw [Stream.drain_eq_served]

/-!
# Texts read back
-/

theorem Reader.reads_document {root : Nat -> Reader α} {input : List UInt8} {a : α}
    (h : Reads (root maxLevels) input a []) : Reads (document .clean root) input a [] :=
  h.bind ((reads_peekBehindBlanks_end blanks_nil).bind (.pure a []))

namespace Source

theorem read_of_reads {source : Source} {root : Ending -> Nat -> Reader α} {a : α}
    {rest : List UInt8}
    (h : Reads (Reader.document source.ending (root source.ending)) source.bytes a rest) :
    source.read root = .ok a := by
  rcases h with ⟨found, hfound, rfl, _⟩
  unfold read
  rw [hfound]

theorem read_text {root : Ending -> Nat -> Reader α} {v : Value} {a : α}
    (h : ReadsBack (root .clean Reader.maxLevels) v a) (layout : Layout) :
    (ofText (v.text layout)).read root = .ok a := by
  have hroot := h.reads layout 0 [] [] Reader.blanks_nil Reader.delimits_nil
  rw [List.nil_append, ← Utf8.encode_ofList] at hroot
  have hdocument := Reader.reads_document hroot
  exact read_of_reads hdocument

theorem tree_text {v : Value} (h : Reader.Fits Reader.maxLevels v) (layout : Layout) :
    (ofText (v.text layout)).tree = .ok v :=
  read_text (Reader.readsBack_value h) layout

end Source

namespace Document

theorem ofValue_of_depth_le {settings : Settings} (hcheck : settings.check = .ok ()) {v : Value}
    (h : v.depth ≤ settings.maxDepth.toNat) : ofValue settings v = .ok ⟨v⟩ := by
  unfold ofValue
  rw [hcheck, Value.worklistDepth_eq_depth]
  exact if_neg (Nat.not_lt.mpr h)

theorem ofValue_eq_ok_iff {settings : Settings} (hcheck : settings.check = .ok ()) {v : Value}
    {document : Document} :
    ofValue settings v = .ok document <->
      v.depth ≤ settings.maxDepth.toNat ∧ ⟨v⟩ = document := by
  by_cases hdepth : v.depth ≤ settings.maxDepth.toNat
  · rw [ofValue_of_depth_le hcheck hdepth]
    simp [hdepth]
  · unfold ofValue
    rw [hcheck, Value.worklistDepth_eq_depth]
    constructor
    · intro h
      rw [if_pos (Nat.lt_of_not_le hdepth)] at h
      cases h
    · rintro ⟨hle, _⟩
      exact absurd hle hdepth

theorem ofText_eq_ok_iff {settings : Settings} (hcheck : settings.check = .ok ()) {text : String}
    {document : Document} :
    ofText settings text = .ok document <->
      exists v : Value, (Source.ofText text).tree = .ok v ∧
        v.depth ≤ settings.maxDepth.toNat ∧ ⟨v⟩ = document := by
  unfold ofText ofSource
  rw [hcheck]
  cases htree : (Source.ofText text).tree with
  | error found =>
      constructor
      · intro h
        cases h
      · rintro ⟨v, hv, _⟩
        cases hv
  | ok v =>
      show ofValue settings v = .ok document <-> _
      simp [ofValue_eq_ok_iff hcheck]

theorem ofText_text {settings : Settings} (hcheck : settings.check = .ok ()) {v : Value}
    (h : Reader.Fits Reader.maxLevels v) (hdepth : v.depth ≤ settings.maxDepth.toNat)
    (layout : Layout) : ofText settings (v.text layout) = .ok ⟨v⟩ :=
  (ofText_eq_ok_iff hcheck).mpr ⟨v, Source.tree_text h layout, hdepth, rfl⟩

end Document
end JsonBind
