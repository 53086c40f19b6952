/-!
# Frame loop

A program with a picture works frame by frame. `FrameLoop.run` performs frames one after the other until
one of them says that it was the last, or stops. The number of frames is bounded from outside, so that
the loop ends in any case; `again` as its answer means that the bound was reached.
-/
namespace Chip8

/-- What a frame says about the next one. -/
inductive Signal where
  /-- There is another frame. -/
  | again
  /-- This was the last frame. -/
  | finished
  deriving DecidableEq, Repr

/-- Performs at most `bound` frames. -/
def FrameLoop.run {ε σ : Type} (frame : EStateM ε σ Signal) : Nat → EStateM ε σ Signal
  | 0 => return .again
  | bound + 1 => do
    match ← frame with
    | .finished => return .finished
    | .again => run frame bound

end Chip8
