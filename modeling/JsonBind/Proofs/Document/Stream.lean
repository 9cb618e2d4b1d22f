import JsonBind.Proofs.Document.Depth
import JsonBind.Proofs.Reader.Cut

/-!
# Streams that fail

A stream that fails instead of ending never gives a document, however much it served
before. If that could still have become the text of a document, the failed read is what
is complained about; otherwise the bytes themselves may be.
-/

namespace JsonBind

namespace Source

theorem tree_ne_ok_of_broken {source : Source} {reason : String}
    (h : source.ending = .broken reason) (v : Value) : source.tree ≠ .ok v := by
  intro htree
  rcases read_eq_ok_iff.mp htree with ⟨rest, hread⟩
  rw [h] at hread
  exact Reader.not_reads_document hread

theorem tree_of_broken {source : Source} {reason : String} (h : source.ending = .broken reason)
    {more : List UInt8} {v : Value} (hmore : (ofBytes (source.bytes ++ more)).tree = .ok v) :
    exists found : Fault, source.tree = .error found ∧ found.cause = .io reason := by
  rcases read_eq_ok_iff.mp hmore with ⟨rest, hread⟩
  have hvalue := Reader.closed_breakable.value Reader.maxLevels
  rcases @Reader.breaksOff_document _ reason _ hvalue _ _ _ _ hread with ⟨found, hfound, hcause⟩
  refine ⟨found, ?_, hcause⟩
  unfold tree read
  rw [h, hfound]

end Source

namespace Document

/-- A stream that serves some bytes, in chunks and with interruptions as they come, and fails then,
gives no document, not even if the bytes are the text of one. It is an I/O error if more bytes
behind them could have made such a text, and an I/O error or a parse error if not. -/
theorem ofStream_failed {settings : Settings} (hpos : 1 ≤ settings.maxDepth.toNat)
    {reads : Stream} {bytes : List UInt8} (hserved : reads.served = (bytes, .clean))
    (reason : String) (later : Stream) :
    exists error : Error,
      ofStream settings (reads ++ .failed reason :: later) = .error error ∧
      ((exists (more : List UInt8) (v : Value), (Source.ofBytes (bytes ++ more)).tree = .ok v) ->
        exists text : String, error = .io text) ∧
      exists text : String, error = .io text ∨ error = .parse text := by
  have hcheck : settings.check = .ok () := by
    rw [Settings.check_eq, if_neg (Nat.one_le_iff_ne_zero.mp hpos)]
  have hstream := Stream.served_append hserved (.failed reason :: later)
  generalize reads ++ .failed reason :: later = stream at hstream
  have hbytes : (Source.ofStream stream).bytes = bytes := by
    rw [Source.ofStream_eq, hstream]
    exact List.append_nil bytes
  have hending : (Source.ofStream stream).ending = .broken reason := by
    rw [Source.ofStream_eq, hstream]
    rfl
  cases htree : (Source.ofStream stream).tree with
  | ok v => exact absurd htree (Source.tree_ne_ok_of_broken hending v)
  | error found =>
      refine ⟨readError (.ofStream stream) found, ?_, ?_, ?_⟩
      · unfold ofStream ofSource
        rw [hcheck, htree]
        rfl
      · intro h
        rcases h with ⟨more, v, hmore⟩
        rw [← hbytes] at hmore
        rcases Source.tree_of_broken hending hmore with ⟨_, hfound, hcause⟩
        cases htree.symm.trans hfound
        refine ⟨(Source.ofStream stream).message found, if_pos ?_⟩
        rw [hcause]
        rfl
      · refine ⟨(Source.ofStream stream).message found, ?_⟩
        unfold readError
        split
        · exact Or.inl rfl
        · exact Or.inr rfl

/-- The stream fails within a character of two bytes, the first of which it has served. -/
theorem ofStream_failed_in_char :
    exists text : String,
      ofStream .default
          [.chunk 0x5b [0x22], .interrupted, .chunk 0xc3 [], .failed "connection reset"] =
        .error (.io text) := by
  have hfits : Reader.Fits 1 (.array [.string "é"]) := by
    apply Reader.Fits.array
    intro item hitem
    cases List.mem_singleton.mp hitem
    exact .string 0 "é"
  have hfits := hfits.mono (show 1 ≤ Reader.maxLevels by decide)
  have htext := Source.tree_text hfits .compact
  have hfailed := @ofStream_failed .default (by decide)
    [.chunk 0x5b [0x22], .interrupted, .chunk 0xc3 []] [0x5b, 0x22, 0xc3] rfl
    "connection reset" []
  rcases hfailed with ⟨error, herror, hio, _⟩
  rcases hio ⟨[0xa9, 0x22, 0x5d], _, htext⟩ with ⟨text, rfl⟩
  exact ⟨text, herror⟩

end Document
end JsonBind
