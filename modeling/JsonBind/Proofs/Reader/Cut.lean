import JsonBind.Proofs.Reader.Closed
import JsonBind.Proofs.Reader.Written

/-!
# Sources that break off

A source that breaks off serves only the first bytes of what it was to serve. A
reader that would have read something from all of them breaks off with it, or has
read the same before the source breaks off: it never takes the end of what was
served for the end of the text.
-/

namespace JsonBind
namespace Reader

open Scan (Reads reads_bind_iff reads_pure_iff reads_iterate_turn_iff)

variable {α γ σ : Type} {reason : String}

/-- The reader complains about the read that failed, and about nothing else. -/
def BreaksOff (reason : String) (p : Reader α) (input : List UInt8) : Prop :=
  exists found : Fault, p input = .error found ∧ found.cause = .io reason

/-- What `p` reads from `bytes ++ more` it also reads from `bytes` alone, if it does not break off
there. -/
def Breakable (p : Ending -> Reader α) : Prop :=
  forall (reason : String) (bytes more : List UInt8) (a : α) (rest : List UInt8),
    Reads (p .clean) (bytes ++ more) a rest ->
      BreaksOff reason (p (.broken reason)) bytes ∨
        exists left : List UInt8, rest = left ++ more ∧ Reads (p (.broken reason)) bytes a left

theorem BreaksOff.bind {p : Reader α} {input : List UInt8} (h : BreaksOff reason p input)
    (f : α -> Reader γ) : BreaksOff reason (p >>= f) input := by
  rcases h with ⟨found, hp, hcause⟩
  exact ⟨found, Scan.bind_of_error hp, hcause⟩

theorem BreaksOff.behind {p : Reader α} {f : α -> Reader γ} {input mid : List UInt8} {a : α}
    (h : BreaksOff reason (f a) mid) (hread : Reads p input a mid) :
    BreaksOff reason (p >>= f) input := by
  rcases h with ⟨found, hf, hcause⟩
  exact ⟨found, hread.bind_error hf, hcause⟩

/-!
# Sequences and loops
-/

theorem breakable_pure (a : α) : Breakable fun _ => (pure a : Reader α) := by
  intro reason bytes more b rest hread
  rcases reads_pure_iff.mp hread with ⟨rfl, rfl⟩
  exact Or.inr ⟨bytes, rfl, .pure b bytes⟩

theorem breakable_of_refuses {p : Ending -> Reader α} (h : forall ending, Refuses (p ending)) :
    Breakable p := by
  intro reason bytes more a rest hread
  rcases h .clean (bytes ++ more) with ⟨complaint, hcomplaint, _⟩
  rcases hread with ⟨found, hfound, _⟩
  cases hcomplaint.symm.trans hfound

theorem Breakable.bind {p : Ending -> Reader α} {f : Ending -> α -> Reader γ} (hp : Breakable p)
    (hf : forall a : α, Breakable fun ending => f ending a) :
    Breakable fun ending => p ending >>= f ending := by
  intro reason bytes more c rest hread
  rcases reads_bind_iff.mp hread with ⟨a, mid, hfirst, hsecond⟩
  rcases hp reason bytes more a mid hfirst with hbreaks | ⟨left, rfl, hleft⟩
  · exact Or.inl (hbreaks.bind _)
  · rcases hf a reason left more c rest hsecond with hbreaks | ⟨behind, rfl, hbehind⟩
    · exact Or.inl (hbreaks.behind hleft)
    · exact Or.inr ⟨behind, rfl, hleft.bind hbehind⟩

/-- A run of bytes may be longer in the longer source; so what follows has to break off where a
source does. -/
theorem Breakable.takeWhile_bind {test : UInt8 -> Bool} {f : Ending -> List UInt8 -> Reader α}
    (hend : forall (reason : String) (run : List UInt8),
      BreaksOff reason (f (.broken reason) run) [])
    (hf : forall run : List UInt8, Breakable fun ending => f ending run) :
    Breakable fun ending => Scan.takeWhile test >>= f ending := by
  intro reason bytes more a rest hread
  have hrun : forall b : UInt8, b ∈ bytes.takeWhile test -> test b = true :=
    List.all_eq_true.mp List.all_takeWhile
  have hstop : forall b : UInt8, (bytes.dropWhile test).head? = some b -> test b = false :=
    fun _ hb => Scan.eq_false_of_head?_dropWhile hb
  rw [← @List.takeWhile_append_dropWhile _ test bytes] at hread ⊢
  generalize bytes.takeWhile test = run at hrun hread ⊢
  generalize bytes.dropWhile test = left at hstop hread ⊢
  have htake := @Scan.reads_takeWhile _ Fault _ _ _ hrun hstop
  cases left with
  | nil => exact Or.inl ((hend reason run).behind htake)
  | cons byte left =>
      have hlonger := @Scan.reads_takeWhile _ Fault _ run (byte :: left ++ more) hrun hstop
      rw [List.append_assoc] at hread
      rcases reads_bind_iff.mp hread with ⟨run, mid, hfirst, hsecond⟩
      rcases hfirst.unique hlonger with ⟨rfl, rfl⟩
      rcases hf run reason (byte :: left) more a rest hsecond with
        hbreaks | ⟨behind, rfl, hbehind⟩
      · exact Or.inl (hbreaks.behind htake)
      · exact Or.inr ⟨behind, rfl, htake.bind hbehind⟩

theorem BreaksOff.iterate {step : σ -> Reader (Option σ)} {state : σ} {input : List UInt8}
    (h : BreaksOff reason (step state) input) :
    BreaksOff reason (Scan.iterate step state) input := by
  rcases h with ⟨found, hturn, hcause⟩
  exact ⟨found, Scan.iterate_of_error hturn, hcause⟩

theorem BreaksOff.iterate_behind {step : σ -> Reader (Option σ)} {state next : σ}
    {input mid : List UInt8} (h : BreaksOff reason (Scan.iterate step next) mid)
    (hread : Reads (step state) input (some next) mid) (hlt : mid.length < input.length) :
    BreaksOff reason (Scan.iterate step state) input := by
  rcases h with ⟨found, hmore, hcause⟩
  exact ⟨found, hread.iterate_error hlt hmore, hcause⟩

theorem Breakable.iterate {step : Ending -> σ -> Reader (Option σ)}
    (h : forall state : σ, Breakable fun ending => step ending state) (state : σ) :
    Breakable fun ending => Scan.iterate (step ending) state := by
  intro reason bytes more last rest hread
  -- The turns are followed by the length of what the broken source still serves.
  induction hlength : bytes.length using Nat.strongRecOn generalizing state bytes with
  | ind n ih =>
      rcases reads_iterate_turn_iff.mp hread with
        ⟨hturn, rfl⟩ | ⟨next, mid, hturn, hmore⟩
      · rcases h _ reason bytes more none rest hturn with hbreaks | ⟨left, rfl, hleft⟩
        · exact Or.inl hbreaks.iterate
        · exact Or.inr ⟨left, rfl, hleft.iterate_stop⟩
      · rcases h _ reason bytes more (some next) mid hturn with hbreaks | ⟨left, rfl, hleft⟩
        · exact Or.inl hbreaks.iterate
        · have hshorter : (left ++ more).length < (bytes ++ more).length <->
              left.length < bytes.length := by
            simp only [List.length_append, Nat.add_lt_add_iff_right]
          rcases hmore with ⟨hlt, hmore⟩ | ⟨hlt, rfl, rfl⟩
          · have hlt := hshorter.mp hlt
            rcases ih left.length (hlength ▸ hlt) next left hmore rfl with
              hbreaks | ⟨behind, rfl, hbehind⟩
            · exact Or.inl (hbreaks.iterate_behind hleft hlt)
            · exact Or.inr ⟨behind, rfl, hleft.iterate_more hlt hbehind⟩
          · have hlt := mt hshorter.mpr hlt
            refine Or.inr ⟨left, rfl, reads_iterate_turn_iff.mpr (Or.inr ?_)⟩
            exact ⟨last, left, hleft, Or.inr ⟨hlt, rfl, rfl⟩⟩

/-!
# Single bytes and runs of bytes
-/

theorem breaksOff_peek (reason : String) : BreaksOff reason (peek (.broken reason)) [] :=
  ⟨_, rfl, rfl⟩

theorem breaksOff_next (reason : String) : BreaksOff reason (next (.broken reason)) [] :=
  ⟨_, rfl, rfl⟩

theorem breakable_peek : Breakable peek := by
  intro reason bytes more byte rest hread
  cases bytes with
  | nil => exact Or.inl (breaksOff_peek reason)
  | cons b bytes =>
      rcases hread.unique (reads_peek_cons .clean b (bytes ++ more)) with ⟨rfl, rfl⟩
      exact Or.inr ⟨b :: bytes, rfl, reads_peek_cons _ b bytes⟩

theorem breakable_next : Breakable next := by
  intro reason bytes more byte rest hread
  cases bytes with
  | nil => exact Or.inl (breaksOff_next reason)
  | cons b bytes =>
      rcases hread.unique (reads_next_cons .clean b (bytes ++ more)) with ⟨rfl, rfl⟩
      exact Or.inr ⟨bytes, rfl, reads_next_cons _ b bytes⟩

theorem breakable_peekBehindBlanks : Breakable peekBehindBlanks := by
  apply Breakable.takeWhile_bind
  · intro reason run
    exact breaksOff_peek reason
  · intro run
    exact breakable_peek

theorem breakable_skipDigits : Breakable skipDigits := by
  apply Breakable.takeWhile_bind
  · intro reason run
    exact (breaksOff_peek reason).bind _
  · intro run
    apply breakable_peek.bind
    intro byte
    exact breakable_pure run.length

theorem Breakable.retold {p : Ending -> Reader α} {retell : Ending -> Fault -> Fault}
    (hcause : forall (ending : Ending) (found : Fault), (retell ending found).cause = found.cause)
    (h : Breakable p) :
    Breakable fun ending input => (p ending input).mapError (retell ending) := by
  intro reason bytes more a rest hread
  rcases h reason bytes more a rest (reads_retold_iff.mp hread) with
    ⟨found, hfound, hio⟩ | ⟨left, hrest, hleft⟩
  · refine Or.inl ⟨retell (.broken reason) found, ?_, ?_⟩
    · exact congrArg (Except.mapError (retell (.broken reason))) hfound
    · rw [hcause, hio]
  · exact Or.inr ⟨left, hrest, reads_retold_iff.mpr hleft⟩

theorem closed_breakable : Closed Breakable where
  pure := breakable_pure
  refuses := breakable_of_refuses
  peek := breakable_peek
  next := breakable_next
  peekBehindBlanks := breakable_peekBehindBlanks
  skipDigits := breakable_skipDigits
  bind := Breakable.bind
  iterate := Breakable.iterate
  retold := Breakable.retold

/-!
# Documents
-/

theorem not_reads_peek_none {input rest : List UInt8} :
    ¬ Reads (peek (.broken reason)) input none rest := by
  intro hread
  cases input with
  | nil =>
      rcases hread with ⟨found, hfound, _⟩
      cases hfound
  | cons byte input => cases (hread.unique (reads_peek_cons _ byte input)).left

theorem not_reads_document {root : Nat -> Reader α} {input rest : List UInt8} {a : α} :
    ¬ Reads (document (.broken reason) root) input a rest := by
  intro hread
  rcases reads_document_iff.mp hread with ⟨mid, _, hpeek⟩
  rcases reads_bind_iff.mp hpeek with ⟨blanks, behind, _, hnone⟩
  exact not_reads_peek_none hnone

/-- Where a document could have been read from a longer source, one that breaks off is found to
break off. -/
theorem breaksOff_document {root : Ending -> Nat -> Reader α}
    (h : Breakable fun ending => root ending maxLevels)
    {bytes more rest : List UInt8} {a : α}
    (hread : Reads (document .clean (root .clean)) (bytes ++ more) a rest) :
    BreaksOff reason (document (.broken reason) (root (.broken reason))) bytes := by
  rcases closed_breakable.document h reason bytes more a rest hread with hbreaks | ⟨left, _, hleft⟩
  · exact hbreaks
  · exact absurd hleft not_reads_document

end Reader
end JsonBind
