import Mathlib.Data.List.Induction

/-! # Latches

A flag that inputs set and clear in turn, where an input that does both sets it. After any
inputs the flag is up when something set it and nothing has cleared it since.
-/

namespace Latch

variable {ι : Type*} {sets clears : ι → Bool} {flag : Bool} {inputs : List ι} {input : ι}

/-- The flag after one input. -/
def next (sets clears : ι → Bool) (flag : Bool) (input : ι) : Bool :=
  sets input || flag && !clears input

end Latch
