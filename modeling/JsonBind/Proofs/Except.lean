import Mathlib.Data.List.Forall2

/-!
# Results and errors

A sequence of computations has a result only if each of them has one. An error can be reworded.
-/

namespace JsonBind

variable {ε α β : Type}

theorem bind_eq_ok_iff {x : Except ε α} {f : α -> Except ε β} {b : β} :
    (x >>= f) = .ok b <-> exists a : α, x = .ok a ∧ f a = .ok b := by
  cases x with
  | error e => simp [bind, Except.bind]
  | ok a => simp [bind, Except.bind]

theorem map_eq_ok_iff {x : Except ε α} {f : α -> β} {b : β} :
    x.map f = .ok b <-> exists a : α, x = .ok a ∧ f a = b := by
  cases x with
  | error e => simp [Except.map]
  | ok a => simp [Except.map]

theorem map_eq_error_iff {x : Except ε α} {f : α -> β} {e : ε} :
    x.map f = .error e <-> x = .error e := by
  cases x with
  | error e => simp [Except.map]
  | ok a => simp [Except.map]

theorem mapError_eq_ok_iff {δ : Type} {x : Except ε α} {f : ε -> δ} {a : α} :
    x.mapError f = .ok a <-> x = .ok a := by
  cases x with
  | error e => simp [Except.mapError]
  | ok b => simp [Except.mapError]

theorem mapError_eq_error_iff {δ : Type} {x : Except ε α} {f : ε -> δ} {d : δ} :
    x.mapError f = .error d <-> exists e : ε, x = .error e ∧ f e = d := by
  cases x with
  | error e => simp [Except.mapError]
  | ok a => simp [Except.mapError]

theorem mapM_eq_ok_iff {f : α -> Except ε β} {as : List α} {bs : List β} :
    as.mapM f = .ok bs <-> List.Forall₂ (fun a b => f a = .ok b) as bs := by
  constructor
  · intro h
    induction as generalizing bs with
    | nil =>
        cases h
        exact .nil
    | cons a as ih =>
        rw [List.mapM_cons] at h
        rcases bind_eq_ok_iff.mp h with ⟨b, hb, hmore⟩
        rcases bind_eq_ok_iff.mp hmore with ⟨rest, hrest, heq⟩
        cases heq
        exact .cons hb (ih hrest)
  · intro h
    induction h with
    | nil => rfl
    | cons hfirst _ ih =>
        rw [List.mapM_cons, hfirst, ih]
        rfl

end JsonBind
