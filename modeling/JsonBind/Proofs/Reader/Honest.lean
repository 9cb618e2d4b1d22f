import JsonBind.Reader.Source
import JsonBind.Proofs.Except
import JsonBind.Proofs.Reader.Closed

/-!
# What readers complain about

A reader complains about a failed read only where its source has one, and then about that
one. So of a source that ends nothing is ever said but what is wrong with its text.
-/

namespace JsonBind
namespace Reader

variable {α γ σ : Type}

/-- A failed read that `p` complains about is the one that its source breaks off with. -/
def Honest (p : Ending -> Reader α) : Prop :=
  forall (ending : Ending) (input : List UInt8) (found : Fault) (reason : String),
    p ending input = .error found -> found.cause = .io reason -> ending = .broken reason

theorem honest_of_ok {p : Reader α}
    (h : forall input : List UInt8, exists found : Found UInt8 α input, p input = .ok found) :
    Honest fun _ => p := by
  intro ending input found reason hfound
  rcases h input with ⟨taken, hok⟩
  cases hok.symm.trans hfound

theorem honest_pure (a : α) : Honest fun _ => (pure a : Reader α) :=
  honest_of_ok fun _ => ⟨_, rfl⟩

theorem honest_of_refuses {p : Ending -> Reader α}
    (h : forall ending : Ending, Refuses (p ending)) : Honest p := by
  intro ending input found reason hfound hcause
  rcases h ending input with ⟨own, hown, hio⟩
  cases hown.symm.trans hfound
  rw [hcause] at hio
  cases hio

theorem Honest.bind {p : Ending -> Reader α} {f : Ending -> α -> Reader γ} (hp : Honest p)
    (hf : forall a : α, Honest fun ending => f ending a) :
    Honest fun ending => p ending >>= f ending := by
  intro ending input found reason h hcause
  dsimp only at h
  cases hfirst : p ending input with
  | error e =>
      rw [Scan.bind_of_error hfirst] at h
      cases h
      exact hp ending input found reason hfirst hcause
  | ok first =>
      cases hsecond : f ending first.result first.rest with
      | error e =>
          rw [Scan.bind_of_ok_of_error hfirst hsecond] at h
          cases h
          exact hf first.result ending first.rest found reason hsecond hcause
      | ok second =>
          rw [Scan.bind_of_ok hfirst hsecond] at h
          cases h

theorem Honest.iterate {step : Ending -> σ -> Reader (Option σ)}
    (h : forall state : σ, Honest fun ending => step ending state) (state : σ) :
    Honest fun ending => Scan.iterate (step ending) state := by
  intro ending input found reason hloop hcause
  dsimp only at hloop
  -- The turns are followed by the length of what is left.
  induction hlength : input.length using Nat.strongRecOn generalizing state input with
  | ind n ih =>
      rw [Scan.iterate] at hloop
      cases hturn : step ending state input with
      | error e =>
          rw [hturn] at hloop
          cases hloop
          exact h state ending input found reason hturn hcause
      | ok turn =>
          rcases turn with ⟨_ | next, mid, took, le, took_eq⟩
          · rw [hturn] at hloop
            cases hloop
          · rw [hturn] at hloop
            dsimp only at hloop
            by_cases htook : took = true
            · rw [dif_pos htook] at hloop
              cases hmore : Scan.iterate (step ending) next mid with
              | ok last =>
                  rw [hmore] at hloop
                  cases hloop
              | error e =>
                  rw [hmore] at hloop
                  cases hloop
                  have hlt : mid.length < input.length := of_decide_eq_true (took_eq ▸ htook)
                  exact ih mid.length (hlength ▸ hlt) next mid hmore rfl
            · rw [dif_neg htook] at hloop
              cases hloop

theorem honest_told (byte : Option UInt8) : Honest fun ending =>
    (match byte, ending with
    | none, .broken reason => fault (.io reason) .unplaced
    | next, _ => pure next : Reader (Option UInt8)) := by
  intro ending input found reason h hcause
  cases byte with
  | some byte => cases h
  | none =>
      cases ending with
      | clean => cases h
      | broken own =>
          cases h
          cases hcause
          rfl

theorem honest_peek : Honest peek := by
  have hpeek : Honest fun _ => (Scan.peek : Reader (Option UInt8)) :=
    honest_of_ok fun _ => ⟨_, rfl⟩
  exact hpeek.bind honest_told

theorem honest_next : Honest next := by
  have hnext : Honest fun _ => (Scan.next : Reader (Option UInt8)) := by
    apply honest_of_ok
    intro input
    cases input with
    | nil => exact ⟨_, rfl⟩
    | cons byte input => exact ⟨_, rfl⟩
  exact hnext.bind honest_told

theorem honest_takeWhile (test : UInt8 -> Bool) :
    Honest fun _ => (Scan.takeWhile test : Reader (List UInt8)) :=
  honest_of_ok fun _ => ⟨_, rfl⟩

theorem Honest.retold {p : Ending -> Reader α} {retell : Ending -> Fault -> Fault}
    (hcause : forall (ending : Ending) (found : Fault), (retell ending found).cause = found.cause)
    (h : Honest p) : Honest fun ending input => (p ending input).mapError (retell ending) := by
  intro ending input found reason hfound hio
  rcases mapError_eq_error_iff.mp hfound with ⟨own, hown, rfl⟩
  rw [hcause] at hio
  exact h ending input own reason hown hio

theorem closed_honest : Closed Honest where
  pure := honest_pure
  refuses := honest_of_refuses
  peek := honest_peek
  next := honest_next
  peekBehindBlanks := (honest_takeWhile isBlank).bind fun _ => honest_peek
  skipDigits :=
    (honest_takeWhile _).bind fun run => honest_peek.bind fun _ => honest_pure run.length
  bind := Honest.bind
  iterate := Honest.iterate
  retold := Honest.retold

end Reader

namespace Source

/-- The tree of a source is refused for a failed read only if that is how the source ends. -/
theorem ending_of_tree_error {source : Source} {found : Fault} {reason : String}
    (h : source.tree = .error found) (hcause : found.cause = .io reason) :
    source.ending = .broken reason := by
  unfold tree read at h
  cases hread : Reader.document source.ending (Reader.value source.ending) source.bytes with
  | ok taken =>
      rw [hread] at h
      cases h
  | error complaint =>
      rw [hread] at h
      cases h
      have hdocument := Reader.closed_honest.document (Reader.closed_honest.value Reader.maxLevels)
      exact hdocument source.ending source.bytes found reason hread hcause

end Source
end JsonBind
