import Chip8.Afterglow
import Chip8.Console.Log
import Chip8.Console.Options
import Chip8.FrameLoop
import Chip8.Machine.Step
import Chip8.Pacing

/-!
# Session

One run of a program image. A `Session` holds the machine, its tempo and its afterglow, and collects
what the run writes.

A frame turns the elapsed time into an allowance, executes that many instructions, lets that many timer
ticks pass, updates the afterglow, draws if the run is live, and counts itself. The first fault ends
the frame it happens in, and with it the run; then no more ticks pass and the frame is not counted.

After the last frame, however it ended, the screen is written if the run is not live. A crash ends
everything at once.
-/
namespace Chip8.Console

/-- Nominal duration of a frame in nanoseconds. -/
def frameTime : Nat := 16000000

/-- The number of completed frames has 64 bits and stays below this number. -/
def frameLimit : Nat := 0x10000000000000000

/-- Where the machine's records come from. -/
def machineSource : String := "chip8::vm"

/-- Where the console's own records come from. -/
def consoleSource : String := "chip8_term"

/-- A run in progress. -/
structure Session where
  options : Options
  filter : LogFilter
  machine : Machine
  tempo : Tempo
  afterglow : Afterglow
  /-- Frames completed. -/
  frames : Nat
  /-- What was written, in pieces. -/
  output : Array String
  /-- The records shown. -/
  log : Array Record

namespace Session

/-- A run with nothing loaded. `entropy` is where random bytes come from without a seed. -/
def new (options : Options) (filter : LogFilter) (entropy : RandomStream) : Session where
  options := options
  filter := filter
  machine := .new options.dialect ((options.seed.map RandomStream.ofSeed).getD entropy)
  tempo := .ofRate options.rate
  afterglow := .new options.decay
  frames := 0
  output := #[]
  log := #[]

/-- Takes the machine's events into a log, as far as they are shown. -/
def collect (filter : LogFilter) (volume : Volume) (log : Array Record) (events : List Event) :
    Array Record :=
  events.foldl (fun log event =>
    if volume.lets event.level then filter.add log ⟨event.level, machineSource, event.message⟩
    else log) log

/-- Makes a request to the machine. -/
def request (volume : Volume) (f : Machine → Reply) : EStateM Stop Session Unit := fun s =>
  let reply := f s.machine
  let s := { s with machine := reply.machine, log := collect s.filter volume s.log reply.events }
  match reply.result with
  | .ok () => .ok () s
  | .error stop => .error stop s

/-- Adds a record of the console's own. -/
def report (level : Level) (message : String) : EStateM Stop Session Unit :=
  modify fun s => { s with log := s.filter.add s.log ⟨level, consoleSource, message⟩ }

/-- What the machine may say. -/
def machineVolume : EStateM Stop Session Volume := return (← get).filter.volume machineSource

/-- Holds down keys. -/
def holdKeys (volume : Volume) : List Nat → EStateM Stop Session Unit
  | [] => return ()
  | key :: rest => do
    request volume (·.setKey key true)
    holdKeys volume rest

/-- Loads the image and holds down the keys. -/
def boot (image : List UInt8) : EStateM Stop Session Unit := do
  let volume ← machineVolume
  request volume (·.load image)
  let options := (← get).options
  holdKeys volume options.keys
  report .info s!"running {options.image} ({image.length} bytes) at {options.rate} cycles/s"

/-- What a stretch of time is worth. -/
def allow (elapsed : Nat) : EStateM Stop Session Allowance := do
  match (← get).tempo.elapse elapsed with
  | .ok (allowance, tempo) =>
    modify fun s => { s with tempo := tempo }
    return allowance
  | .error crash => throw (.crash crash)

/-- Executes a number of instructions. -/
def execute (volume : Volume) : Nat → EStateM Stop Session Unit
  | 0 => return ()
  | n + 1 => do
    request volume Machine.step
    execute volume n

/-- The machine after a number of timer ticks. -/
def tickTimes : Nat → Machine → Machine
  | 0, m => m
  | n + 1, m => tickTimes n (m.tick 1)

/-- Executes the instructions of a stretch of time, lets its ticks pass and updates the afterglow. -/
def update (elapsed : Nat) : EStateM Stop Session Unit := do
  let allowance ← allow elapsed
  execute (← machineVolume) allowance.cycles
  modify fun s => { s with machine := tickTimes allowance.ticks s.machine }
  modify fun s =>
    { s with afterglow := s.afterglow.update s.machine.screen (secondsOfNanos elapsed) }

/-- Writes what clears a terminal and puts its cursor in the corner. -/
def clearTerminal : String := "\x1b[2J\x1b[H"

/-- Draws the afterglow, if the run is live. -/
def draw : EStateM Stop Session Unit :=
  modify fun s =>
    if s.options.live then { s with output := s.output.push (clearTerminal ++ s.afterglow.text) } else s

/-- Counts a frame, in 64 bits, and tells whether it was the last. -/
def count : EStateM Stop Session Signal := do
  let done := (← get).frames + 1
  if frameLimit ≤ done then throw (.crash .additionOverflow)
  modify fun s => { s with frames := done }
  match (← get).options.frames with
  | some limit => return if limit ≤ done then .finished else .again
  | none => return .again

/-- One frame. -/
def frame (elapsed : Nat) : EStateM Stop Session Signal := do
  update elapsed
  draw
  count

/-- Writes the screen, unless the run is live, and reports the number of frames. -/
def close (s : Session) : Session :=
  let output := if s.options.live then s.output else s.output.push s.machine.screen.text
  { s with
    output := output
    log := s.filter.add s.log ⟨.info, consoleSource, s!"stopped after {s.frames} frames"⟩ }

/-- How a run ends. -/
inductive Ending where
  /-- By its frame limit. -/
  | complete
  | faulted (fault : Fault)
  | crashed (crash : Crash)
  deriving DecidableEq, Repr

/-- Ends a run. -/
def finish {α : Type} : EStateM.Result Stop Session α → Session × Ending
  | .ok _ s => (s.close, .complete)
  | .error (.fault fault) s => (s.close, .faulted fault)
  | .error (.crash crash) s => (s, .crashed crash)

/-- How long the next frame is taken to last. If nobody waits between frames, each lasts its nominal
time. Otherwise the clock starts with the first frame, and only the following ones have lasted. -/
def elapsed (s : Session) : Nat :=
  if s.options.headless || s.frames != 0 then frameTime else 0

/-- Runs frames until the end. The frame counter has 64 bits, so that there are no more frames than the
bound allows. -/
def play (s : Session) : Session × Ending :=
  finish (FrameLoop.run (fun s => frame s.elapsed s) frameLimit s)

end Session

end Chip8.Console
