/-!
# Scans

A scan reads a result off the front of its input, or stops with a complaint.
What it leaves is never longer than what it was given, and the type says so:
every loop over the input ends for that reason. Whether anything was taken is
kept beside it, so that a loop need not measure its input at each turn.
-/

namespace JsonBind

structure Found (β α : Type) (input : List β) where
  result : α
  rest : List β
  took : Bool
  le : rest.length ≤ input.length
  took_eq : took = decide (rest.length < input.length)

namespace Found

variable {β α γ : Type} {input : List β}

def stay (result : α) : Found β α input :=
  ⟨result, input, false, Nat.le_refl _, by simp⟩

def andThen (first : Found β α input) (second : Found β γ first.rest) : Found β γ input where
  result := second.result
  rest := second.rest
  took := first.took || second.took
  le := Nat.le_trans second.le first.le
  took_eq := by
    have h := first.le
    have h' := second.le
    rw [first.took_eq, second.took_eq, Bool.eq_iff_iff]
    simp only [Bool.or_eq_true, decide_eq_true_eq]
    omega

end Found

/-- A scan of symbols `β`, with results in `α` and complaints in `ε`. -/
def Scan (β ε α : Type) : Type :=
  (input : List β) -> Except ε (Found β α input)

namespace Scan

variable {β ε α γ σ : Type}

def pure (a : α) : Scan β ε α :=
  fun _ => .ok (.stay a)

def bind (p : Scan β ε α) (f : α -> Scan β ε γ) : Scan β ε γ :=
  fun input =>
    match p input with
    | .error e => .error e
    | .ok first =>
        match f first.result first.rest with
        | .error e => .error e
        | .ok second => .ok (first.andThen second)

instance : Monad (Scan β ε) where
  pure := Scan.pure
  bind := Scan.bind

def fail (complaint : List β -> ε) : Scan β ε α :=
  fun input => .error (complaint input)

def next : Scan β ε (Option β) :=
  fun input =>
    match input with
    | [] => .ok (.stay none)
    | b :: rest => .ok ⟨some b, rest, true, Nat.le_succ _, by simp⟩

def peek : Scan β ε (Option β) :=
  fun input => .ok (.stay input.head?)

def takeWhile (p : β -> Bool) : Scan β ε (List β) :=
  fun input =>
    .ok
      { result := input.takeWhile p
        rest := input.dropWhile p
        took := !(input.takeWhile p).isEmpty
        le := (List.dropWhile_suffix p).length_le
        took_eq := by
          have h := congrArg List.length (List.takeWhile_append_dropWhile (p := p) (l := input))
          rw [List.length_append] at h
          cases hp : input.takeWhile p with
          | nil => simp_all
          | cons b bs =>
              rw [hp, List.length_cons] at h
              simp
              omega }

/-- Repeats `step` until it stops, or takes nothing; the last state is the result. -/
def iterate (step : σ -> Scan β ε (Option σ)) (state : σ) : Scan β ε σ :=
  fun input =>
    match step state input with
    | .error e => .error e
    | .ok ⟨none, rest, took, le, took_eq⟩ => .ok ⟨state, rest, took, le, took_eq⟩
    | .ok ⟨some state', rest, took, le, took_eq⟩ =>
        if _h : took = true then
          match iterate step state' rest with
          | .error e => .error e
          | .ok found => .ok (Found.andThen ⟨(), rest, took, le, took_eq⟩ found)
        else .ok ⟨state', rest, took, le, took_eq⟩
termination_by input => input.length
decreasing_by
  rw [took_eq] at _h
  exact of_decide_eq_true _h

/-!
# Running

What a sequence of scans does follows from what its parts do; these equations
are all that is needed of the definitions above.
-/

theorem bind_of_error {p : Scan β ε α} {f : α -> Scan β ε γ} {input : List β} {e : ε}
    (h : p input = .error e) : (p >>= f) input = .error e := by
  show Scan.bind p f input = .error e
  simp only [Scan.bind, h]

theorem bind_of_ok_of_error {p : Scan β ε α} {f : α -> Scan β ε γ} {input : List β}
    {first : Found β α input} {e : ε} (h : p input = .ok first)
    (h' : f first.result first.rest = .error e) : (p >>= f) input = .error e := by
  show Scan.bind p f input = .error e
  simp only [Scan.bind, h, h']

theorem bind_of_ok {p : Scan β ε α} {f : α -> Scan β ε γ} {input : List β}
    {first : Found β α input} {second : Found β γ first.rest} (h : p input = .ok first)
    (h' : f first.result first.rest = .ok second) :
    (p >>= f) input = .ok (first.andThen second) := by
  show Scan.bind p f input = .ok (first.andThen second)
  simp only [Scan.bind, h, h']

end Scan
end JsonBind
