import Chip8.Fault

/-!
# Call stack

Sixteen frames for return addresses, of which the first `depth` are in use. A return leaves its
address behind in a frame that is no longer in use; `CallStack.live` is what the stack means.

A stack whose `depth` is past sixteen cannot be reached from `CallStack.empty`; pushing onto or
popping from one is a crash.
-/
namespace Chip8

/-- Number of frames. -/
def stackFrames : Nat := 16

/-- Return addresses, and how many of them are in use. -/
structure CallStack where
  frames : Vector UInt16 stackFrames
  depth : Nat
  deriving DecidableEq, Repr

namespace CallStack

/-- No frame in use. -/
def empty : CallStack := ⟨Vector.replicate stackFrames 0, 0⟩

instance : Inhabited CallStack := ⟨empty⟩

/-- Uses one more frame. -/
def push (s : CallStack) (address : UInt16) : Except Stop CallStack :=
  if s.depth = stackFrames then .error (.fault .stackOverflow)
  else if h : s.depth < stackFrames then .ok ⟨s.frames.set s.depth address, s.depth + 1⟩
  else .error (.crash (.indexOutOfBounds stackFrames s.depth))

/-- Gives the latest frame back, with its address. -/
def pop (s : CallStack) : Except Stop (UInt16 × CallStack) :=
  if s.depth = 0 then .error (.fault .stackUnderflow)
  else if h : s.depth - 1 < stackFrames then .ok (s.frames[s.depth - 1], ⟨s.frames, s.depth - 1⟩)
  else .error (.crash (.indexOutOfBounds stackFrames (s.depth - 1)))

/-- The addresses in use, oldest first. -/
def live (s : CallStack) : List UInt16 := s.frames.toList.take s.depth

/-- The stack as it appears in a snapshot of the machine: depth and live addresses. -/
def describe (depth : Nat) (live : List UInt16) : String :=
  let frames := live.map fun a => "\"" ++ Text.hexWord a ++ "\""
  s!"Stack \x7b sp: {depth}, frames: [" ++ ", ".intercalate frames ++ "] \x7d"

/-- The text of a stack. -/
def text (s : CallStack) : String := describe s.depth s.live

end CallStack

end Chip8
