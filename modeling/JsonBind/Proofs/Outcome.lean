import JsonBind.Outcome

/-!
# Results and events of outcomes

What a sequence of outcomes results in, part by part, whatever events it tells. What it tells
are the events of its parts, up to the first that fails.
-/

namespace JsonBind
namespace Outcome

variable {α β : Type}

instance : LawfulMonad Outcome := by
  refine LawfulMonad.mk' _ ?_ ?_ ?_
  · intro α x
    change Outcome.bind x Outcome.pure = x
    rcases x with ⟨events, e | a⟩
    · rfl
    · simp [Outcome.bind, Outcome.pure]
  · intro α β a f
    change Outcome.bind (Outcome.pure a) f = f a
    simp [Outcome.bind, Outcome.pure]
  · intro α β γ x f g
    change Outcome.bind (Outcome.bind x f) g = Outcome.bind x fun a => Outcome.bind (f a) g
    rcases x with ⟨events, e | a⟩
    · rfl
    · cases hf : (f a).result with
      | error e => simp [Outcome.bind, hf]
      | ok b => simp [Outcome.bind, hf]

theorem result_bind_of_ok {x : Outcome α} {f : α -> Outcome β} {a : α}
    (h : x.result = .ok a) : (x >>= f).result = (f a).result := by
  change (Outcome.bind x f).result = (f a).result
  rw [Outcome.bind, h]

theorem result_bind_of_error {x : Outcome α} {f : α -> Outcome β} {e : Error}
    (h : x.result = .error e) : (x >>= f).result = .error e := by
  change (Outcome.bind x f).result = .error e
  rw [Outcome.bind, h]

theorem result_bind_eq_ok_iff {x : Outcome α} {f : α -> Outcome β} {b : β} :
    (x >>= f).result = .ok b <-> exists a : α, x.result = .ok a ∧ (f a).result = .ok b := by
  cases hx : x.result with
  | error e =>
      rw [result_bind_of_error hx]
      simp
  | ok a =>
      rw [result_bind_of_ok hx]
      simp

theorem result_bind_pure (x : Outcome α) (f : α -> β) :
    (x >>= fun a => return f a).result = x.result.map f := by
  cases hx : x.result with
  | error e => exact result_bind_of_error hx
  | ok a => exact result_bind_of_ok hx

theorem result_mapError_of_ok {x : Outcome α} {a : α} (h : x.result = .ok a)
    (f : Error -> Error) : (x.mapError f).result = .ok a := by
  rw [Outcome.mapError, h]
  rfl

theorem result_mapError_of_error {x : Outcome α} {e : Error} (h : x.result = .error e)
    (f : Error -> Error) : (x.mapError f).result = .error (f e) := by
  rw [Outcome.mapError, h]
  rfl

theorem result_tell_bind (event : Event) (f : Unit -> Outcome β) :
    (Outcome.tell event >>= f).result = (f ()).result := rfl

theorem bind_congr {x : Outcome α} {f g : α -> Outcome β}
    (h : forall a : α, x.result = .ok a -> f a = g a) : x >>= f = x >>= g := by
  change Outcome.bind x f = Outcome.bind x g
  unfold Outcome.bind
  cases hx : x.result with
  | error e => rfl
  | ok a => simp only [h a hx]

theorem result_bind_congr {x : Outcome α} {f g : α -> Outcome β}
    (h : forall a : α, x.result = .ok a -> (f a).result = (g a).result) :
    (x >>= f).result = (x >>= g).result := by
  cases hx : x.result with
  | error e => rw [result_bind_of_error hx, result_bind_of_error hx]
  | ok a => rw [result_bind_of_ok hx, result_bind_of_ok hx, h a hx]

/-!
# Events
-/

theorem events_bind_of_ok {x : Outcome α} {f : α -> Outcome β} {a : α} (h : x.result = .ok a) :
    (x >>= f).events = x.events ++ (f a).events := by
  change (Outcome.bind x f).events = _
  rw [Outcome.bind, h]

theorem events_bind_of_error {x : Outcome α} {f : α -> Outcome β} {e : Error}
    (h : x.result = .error e) : (x >>= f).events = x.events := by
  change (Outcome.bind x f).events = _
  rw [Outcome.bind, h]

theorem events_map (f : α -> β) (x : Outcome α) : (f <$> x).events = x.events := by
  change (Outcome.bind x fun a => Outcome.pure (f a)).events = _
  unfold Outcome.bind
  cases x.result with
  | error e => rfl
  | ok a => exact List.append_nil _

theorem events_bind_pure (x : Outcome α) (f : α -> β) :
    (x >>= fun a => return f a).events = x.events :=
  events_map f x

theorem events_tell_bind (event : Event) (f : Unit -> Outcome β) :
    (Outcome.tell event >>= f).events = event :: (f ()).events := rfl

end Outcome
end JsonBind
