import Chip8.Fault

/-!
# Pacing

Elapsed time is turned into whole instruction cycles and whole timer ticks. Time is counted in
nanoseconds. A `Meter` owes the time that has passed and hands it out in whole periods; what is left
over stays owed. A `Tempo` runs two of them, and both are credited before either hands anything out.

* A duration has a longest value, `longestDuration`; owing more is a crash.
* A count of periods has 32 bits. Periods past that stay owed, except for a whole multiple of `2 ^ 32`
  of them: the count is what is left after dividing by `2 ^ 32`, and only that many periods are paid.
* A rate above a thousand million cycles a second has period zero, and handing out is a crash.
-/
namespace Chip8

/-- Nanoseconds in a second. -/
def second : Nat := 1000000000

/-- The longest duration, in nanoseconds: 64 bits of seconds and a fraction. -/
def longestDuration : Nat := 0x10000000000000000 * second - 1

/-- Time handed out in whole periods. -/
structure Meter where
  /-- Nanoseconds in a period. -/
  period : Nat
  /-- Nanoseconds that have passed and are not handed out. -/
  owed : Nat
  deriving DecidableEq, Repr

/-- Counts of periods have 32 bits and stay below this number. -/
def countLimit : Nat := 0x100000000

namespace Meter

/-- A meter that owes nothing. -/
def ofPeriod (period : Nat) : Meter := ⟨period, 0⟩

/-- Lets time pass. -/
def credit (m : Meter) (elapsed : Nat) : Except Crash Meter :=
  if m.owed + elapsed ≤ longestDuration then .ok { m with owed := m.owed + elapsed }
  else .error .durationOverflow

/-- The number of periods to hand out now. -/
def due (m : Meter) : Nat := m.owed / m.period % countLimit

/-- Hands out the periods that are due. -/
def drain (m : Meter) : Except Crash (Nat × Meter) :=
  if m.period = 0 then .error .divisionByZero
  else .ok (m.due, { m with owed := m.owed - m.period * m.due })

end Meter

/-- What a stretch of time is worth. -/
structure Allowance where
  cycles : Nat
  ticks : Nat
  deriving DecidableEq, Repr

/-- A meter for instruction cycles and one for timer ticks. -/
structure Tempo where
  cycles : Meter
  ticks : Meter
  deriving DecidableEq, Repr

namespace Tempo

/-- Timer ticks in a second. -/
def ticksPerSecond : Nat := 60

/-- The tempo of a number of cycles per second, at least one. -/
def ofRate (rate : Nat) : Tempo where
  cycles := .ofPeriod (second / max rate 1)
  ticks := .ofPeriod (second / ticksPerSecond)

/-- Lets time pass, and hands out what it is worth. -/
def elapse (t : Tempo) (time : Nat) : Except Crash (Allowance × Tempo) := do
  let cycles ← t.cycles.credit time
  let ticks ← t.ticks.credit time
  let (cycleCount, cycles) ← cycles.drain
  let (tickCount, ticks) ← ticks.drain
  return (⟨cycleCount, tickCount⟩, ⟨cycles, ticks⟩)

end Tempo

end Chip8
