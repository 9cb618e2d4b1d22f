import JsonBind.Error

/-!
# Outcomes

Reading by a table tells what it does: each object that is read, and each field
that is skipped, is an event. An outcome is a result or an error, with the
events up to there in order.
-/

namespace JsonBind

inductive Event where
  | reading (table : String) (fields : Nat)
  | skipping (table key : String)
  deriving DecidableEq

namespace Event

def line : Event -> String
  | .reading table fields =>
      "TRACE parsing object parser=" ++ table ++ " fields=" ++
        String.ofList (Nat.toDigits 10 fields)
  | .skipping table key => "DEBUG skipping unknown field parser=" ++ table ++ " field=" ++ key

end Event

structure Outcome (α : Type) where
  events : List Event
  result : Except Error α

namespace Outcome

variable {α β : Type}

def pure (a : α) : Outcome α :=
  ⟨[], .ok a⟩

def bind (outcome : Outcome α) (f : α -> Outcome β) : Outcome β :=
  match outcome.result with
  | .error e => ⟨outcome.events, .error e⟩
  | .ok a =>
      let next := f a
      ⟨outcome.events ++ next.events, next.result⟩

instance : Monad Outcome where
  pure := Outcome.pure
  bind := Outcome.bind

def fail (e : Error) : Outcome α :=
  ⟨[], .error e⟩

def tell (event : Event) : Outcome Unit :=
  ⟨[event], .ok ()⟩

def ofExcept (result : Except Error α) : Outcome α :=
  ⟨[], result⟩

def mapError (outcome : Outcome α) (f : Error -> Error) : Outcome α :=
  ⟨outcome.events, outcome.result.mapError f⟩

end Outcome
end JsonBind
