import JsonBind.Scan

/-!
# What scans read

A scan reads a result off an input and leaves a rest. For the parts of a scan
and for its loops, this says all that is needed of a run.
-/

namespace JsonBind
namespace Scan

variable {β ε α γ σ : Type}

def Reads (p : Scan β ε α) (input : List β) (a : α) (rest : List β) : Prop :=
  exists found : Found β α input, p input = .ok found ∧ found.result = a ∧ found.rest = rest

theorem Reads.pure (a : α) (input : List β) :
    Reads (Pure.pure a : Scan β ε α) input a input :=
  ⟨.stay a, rfl, rfl, rfl⟩

theorem Reads.bind {p : Scan β ε α} {f : α -> Scan β ε γ} {input mid rest : List β} {a : α}
    {c : γ} (h : Reads p input a mid) (h' : Reads (f a) mid c rest) :
    Reads (p >>= f) input c rest := by
  rcases h with ⟨first, hp, rfl, rfl⟩
  rcases h' with ⟨second, hf, rfl, rfl⟩
  exact ⟨first.andThen second, bind_of_ok hp hf, rfl, rfl⟩

theorem Reads.le {p : Scan β ε α} {input rest : List β} {a : α} (h : Reads p input a rest) :
    rest.length ≤ input.length := by
  rcases h with ⟨found, _, _, rfl⟩
  exact found.le

theorem Reads.unique {p : Scan β ε α} {input rest rest' : List β} {a a' : α}
    (h : Reads p input a rest) (h' : Reads p input a' rest') : a = a' ∧ rest = rest' := by
  rcases h with ⟨found, hp, rfl, rfl⟩
  rcases h' with ⟨found', hp', rfl, rfl⟩
  rw [hp] at hp'
  cases hp'
  exact ⟨rfl, rfl⟩

theorem reads_next (b : β) (rest : List β) :
    Reads (next : Scan β ε (Option β)) (b :: rest) (some b) rest :=
  ⟨_, rfl, rfl, rfl⟩

theorem reads_peek (input : List β) :
    Reads (peek : Scan β ε (Option β)) input input.head? input :=
  ⟨_, rfl, rfl, rfl⟩

theorem reads_takeWhile {p : β -> Bool} {run rest : List β}
    (hrun : forall b : β, b ∈ run -> p b = true)
    (hrest : forall b : β, rest.head? = some b -> p b = false) :
    Reads (takeWhile p : Scan β ε (List β)) (run ++ rest) run rest := by
  refine ⟨_, rfl, ?_, ?_⟩
  · show (run ++ rest).takeWhile p = run
    rw [List.takeWhile_append_of_pos hrun]
    cases rest with
    | nil => simp
    | cons b rest => simp [hrest b rfl]
  · show (run ++ rest).dropWhile p = rest
    rw [List.dropWhile_append_of_pos hrun]
    cases rest with
    | nil => rfl
    | cons b rest => simp [hrest b rfl]

theorem eq_false_of_head?_dropWhile {p : β -> Bool} {input : List β} {b : β}
    (h : (input.dropWhile p).head? = some b) : p b = false := by
  have hhead := List.head?_dropWhile_not p input
  rw [h] at hhead
  simpa using hhead

/-!
# Loops

A loop goes on after a turn that gives a new state, if the turn took something.
-/

theorem Reads.iterate_stop {step : σ -> Scan β ε (Option σ)} {state : σ} {input rest : List β}
    (h : Reads (step state) input none rest) : Reads (iterate step state) input state rest := by
  rcases h with ⟨⟨result, left, took, le, took_eq⟩, hstep, rfl, rfl⟩
  refine ⟨⟨state, left, took, le, took_eq⟩, ?_, rfl, rfl⟩
  rw [iterate, hstep]

theorem Reads.iterate_more {step : σ -> Scan β ε (Option σ)} {state next last : σ}
    {input mid rest : List β} (h : Reads (step state) input (some next) mid)
    (hlt : mid.length < input.length) (h' : Reads (iterate step next) mid last rest) :
    Reads (iterate step state) input last rest := by
  rcases h with ⟨⟨result, left, took, le, took_eq⟩, hstep, rfl, rfl⟩
  rcases h' with ⟨found, hrest, rfl, rfl⟩
  have htook : took = true := by
    rw [took_eq]
    exact decide_eq_true hlt
  refine ⟨Found.andThen ⟨(), left, took, le, took_eq⟩ found, ?_, rfl, rfl⟩
  rw [iterate, hstep]
  simp only [dif_pos htook, hrest]

/-!
# What a run was made of
-/

theorem reads_pure_iff {a b : α} {input rest : List β} :
    Reads (Pure.pure a : Scan β ε α) input b rest <-> b = a ∧ rest = input := by
  constructor
  · intro h
    exact h.unique (.pure a input)
  · rintro ⟨rfl, rfl⟩
    exact .pure b rest

theorem not_reads_fail (complaint : List β -> ε) (input : List β) (a : α) (rest : List β) :
    ¬ Reads (fail complaint : Scan β ε α) input a rest := by
  rintro ⟨found, hfail, _⟩
  cases hfail

theorem reads_bind_iff {p : Scan β ε α} {f : α -> Scan β ε γ} {input rest : List β} {c : γ} :
    Reads (p >>= f) input c rest <->
      exists (a : α) (mid : List β), Reads p input a mid ∧ Reads (f a) mid c rest := by
  constructor
  · rintro ⟨found, hrun, rfl, rfl⟩
    cases hp : p input with
    | error e =>
        rw [bind_of_error hp] at hrun
        cases hrun
    | ok first =>
        cases hf : f first.result first.rest with
        | error e =>
            rw [bind_of_ok_of_error hp hf] at hrun
            cases hrun
        | ok second =>
            rw [bind_of_ok hp hf] at hrun
            cases hrun
            exact ⟨first.result, first.rest, ⟨first, hp, rfl, rfl⟩, ⟨second, hf, rfl, rfl⟩⟩
  · rintro ⟨a, mid, hp, hf⟩
    exact hp.bind hf

theorem reads_map_iff {p : Scan β ε α} {f : α -> γ} {input rest : List β} {c : γ} :
    Reads (f <$> p) input c rest <-> exists a : α, Reads p input a rest ∧ c = f a := by
  show Reads (p >>= fun a => Pure.pure (f a)) input c rest <-> _
  simp only [reads_bind_iff, reads_pure_iff]
  constructor
  · rintro ⟨a, mid, hp, rfl, rfl⟩
    exact ⟨a, hp, rfl⟩
  · rintro ⟨a, hp, rfl⟩
    exact ⟨a, rest, hp, rfl, rfl⟩

def Advances (p : Scan β ε α) : Prop :=
  forall (input : List β) (a : α) (rest : List β),
    Reads p input a rest -> rest.length < input.length

inductive Runs (step : σ -> Scan β ε (Option σ)) : σ -> List β -> σ -> List β -> Prop where
  | stop {state : σ} {input rest : List β} :
      Reads (step state) input none rest ->
      Runs step state input state rest
  | more {state next last : σ} {input mid rest : List β} :
      Reads (step state) input (some next) mid ->
      Runs step next mid last rest ->
      Runs step state input last rest

/-- What a loop reads, by its first turn. It goes on behind a turn that took something. -/
theorem reads_iterate_turn_iff {step : σ -> Scan β ε (Option σ)} {state last : σ}
    {input rest : List β} :
    Reads (iterate step state) input last rest <->
      (Reads (step state) input none rest ∧ last = state) ∨
        exists (next : σ) (mid : List β), Reads (step state) input (some next) mid ∧
          ((mid.length < input.length ∧ Reads (iterate step next) mid last rest) ∨
            (¬ mid.length < input.length ∧ last = next ∧ rest = mid)) := by
  constructor
  · intro h
    rcases h with ⟨found, hloop, rfl, rfl⟩
    rw [iterate] at hloop
    cases hturn : step state input with
    | error e =>
        simp only [hturn] at hloop
        cases hloop
    | ok turn =>
        rcases turn with ⟨_ | next, mid, took, le, took_eq⟩
        · simp only [hturn] at hloop
          cases hloop
          exact Or.inl ⟨⟨_, hturn, rfl, rfl⟩, rfl⟩
        · refine Or.inr ⟨next, mid, ⟨_, hturn, rfl, rfl⟩, ?_⟩
          by_cases hlt : mid.length < input.length
          · have htook : took = true := took_eq.trans (decide_eq_true hlt)
            simp only [hturn, dif_pos htook] at hloop
            cases hmore : iterate step next mid with
            | error e =>
                rw [hmore] at hloop
                cases hloop
            | ok found =>
                rw [hmore] at hloop
                cases hloop
                exact Or.inl ⟨hlt, found, hmore, rfl, rfl⟩
          · have htook : ¬ took = true := by
              rw [took_eq, decide_eq_true_eq]
              exact hlt
            simp only [hturn, dif_neg htook] at hloop
            cases hloop
            exact Or.inr ⟨hlt, rfl, rfl⟩
  · intro h
    rcases h with ⟨hturn, rfl⟩ | ⟨next, mid, hturn, ⟨hlt, hmore⟩ | ⟨hlt, rfl, rfl⟩⟩
    · exact hturn.iterate_stop
    · exact hturn.iterate_more hlt hmore
    · rcases hturn with ⟨⟨result, left, took, le, took_eq⟩, hstep, rfl, rfl⟩
      have htook : ¬ took = true := by
        rw [took_eq, decide_eq_true_eq]
        exact hlt
      refine ⟨⟨last, left, took, le, took_eq⟩, ?_, rfl, rfl⟩
      rw [iterate, hstep]
      simp only [dif_neg htook]

theorem reads_iterate_iff {step : σ -> Scan β ε (Option σ)}
    (hstep : forall (state next : σ) (input mid : List β),
      Reads (step state) input (some next) mid -> mid.length < input.length)
    {state last : σ} {input rest : List β} :
    Reads (iterate step state) input last rest <-> Runs step state input last rest := by
  constructor
  · intro h
    -- The turns are followed by the length of what is left, which the loop itself ends by.
    induction hlength : input.length using Nat.strongRecOn generalizing state input with
    | ind n ih =>
        rcases reads_iterate_turn_iff.mp h with
          ⟨hturn, rfl⟩ | ⟨next, mid, hturn, ⟨hlt, hmore⟩ | ⟨hlt, _⟩⟩
        · exact .stop hturn
        · exact .more hturn (ih mid.length (hlength ▸ hlt) hmore rfl)
        · exact absurd (hstep state next input mid hturn) hlt
  · intro h
    induction h with
    | stop hturn => exact hturn.iterate_stop
    | more hturn _ ih => exact hturn.iterate_more (hstep _ _ _ _ hturn) ih

/-!
# Complaints

A sequence of scans, or a loop, stops where one of its parts stops.
-/

theorem Reads.bind_error {p : Scan β ε α} {f : α -> Scan β ε γ} {input mid : List β} {a : α}
    {e : ε} (h : Reads p input a mid) (he : f a mid = .error e) :
    (p >>= f) input = .error e := by
  rcases h with ⟨first, hp, rfl, rfl⟩
  exact bind_of_ok_of_error hp he

theorem iterate_of_error {step : σ -> Scan β ε (Option σ)} {state : σ} {input : List β} {e : ε}
    (h : step state input = .error e) : iterate step state input = .error e := by
  rw [iterate, h]

theorem Reads.iterate_error {step : σ -> Scan β ε (Option σ)} {state next : σ}
    {input mid : List β} {e : ε} (h : Reads (step state) input (some next) mid)
    (hlt : mid.length < input.length) (he : iterate step next mid = .error e) :
    iterate step state input = .error e := by
  rcases h with ⟨⟨result, left, took, le, took_eq⟩, hstep, rfl, rfl⟩
  have htook : took = true := took_eq.trans (decide_eq_true hlt)
  rw [iterate, hstep]
  simp only [dif_pos htook]
  rw [he]

end Scan
end JsonBind
