/-!
# Sinks

A sink takes bytes one after the other. It may have room for only so many, and
refuses the next one; what it took before that stays taken.
-/

namespace JsonBind

inductive Refusal where
  -- By an error of its own.
  | failed (reason : String)
  -- By taking nothing.
  | tookNothing

namespace Refusal

def message : Refusal -> String
  | .failed reason => reason
  | .tookNothing => "failed to write whole buffer"

end Refusal

structure Sink where
  -- How many more bytes are taken; without a number, all.
  room : Option Nat
  refusal : Refusal
  taken : Array UInt8

namespace Sink

def new (room : Option Nat) (refusal : Refusal) : Sink :=
  ⟨room, refusal, #[]⟩

def offer (sink : Sink) : List UInt8 -> Except Refusal Unit × Sink
  | [] => (.ok (), sink)
  | byte :: bytes =>
      match sink.room with
      | some 0 => (.error sink.refusal, sink)
      | some (room + 1) =>
          offer { sink with room := some room, taken := sink.taken.push byte } bytes
      | none => offer { sink with taken := sink.taken.push byte } bytes

end Sink
end JsonBind
