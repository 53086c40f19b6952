/-!
# Countdowns

The delay and sound timers: a byte that falls by one with each tick and stays at zero.
-/
namespace Chip8

/-- Ticks left. -/
structure Countdown where
  left : UInt8
  deriving DecidableEq, Repr, Inhabited

namespace Countdown

/-- Nothing left. -/
def idle : Countdown := ⟨0⟩

/-- Lets a number of ticks pass. -/
def elapse (c : Countdown) (ticks : UInt8) : Countdown :=
  ⟨if ticks ≤ c.left then c.left - ticks else 0⟩

/-- Whether ticks are left. -/
def running (c : Countdown) : Bool := c.left != 0

end Countdown

end Chip8
