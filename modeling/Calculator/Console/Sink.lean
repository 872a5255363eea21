/-!
Where a console writes to: bytes in order, and how many of them it takes.

A write that does not fit fills the sink to its limit and fails.
-/

set_option autoImplicit false

namespace Calculator

structure Sink where
  written : Array UInt8
  limit : Option Nat

namespace Sink

def unlimited : Sink := ⟨#[], none⟩

def accepted (sink : Sink) (bytes : List UInt8) : List UInt8 :=
  match sink.limit with
  | none => bytes
  | some limit => bytes.take (limit - sink.written.size)

/-- The sink after the write: as a success if it took everything, else as a failure. -/
def write (sink : Sink) (bytes : List UInt8) : Except Sink Sink :=
  let accepted := sink.accepted bytes
  let after : Sink := ⟨sink.written ++ accepted, sink.limit⟩
  if accepted.length < bytes.length then .error after else .ok after

end Sink

end Calculator
