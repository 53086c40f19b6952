import Chip8.Journal
import Chip8.Machine.Execute

/-!
# Requests to the machine

A `Reply` is what one request leaves behind: the machine, the events in order, and whether the request
was carried out.

* `Machine.step` fetches, decodes and executes one instruction. Any fault halts the machine with the
  program counter still at the instruction, and a halted machine refuses to step.
* `Machine.load`, `Machine.tick` and `Machine.setKey` work on halted machines too.
* `Operation` is any of these as data, and `Machine.run` performs a list of them.
-/
namespace Chip8

/-- What a request leaves behind. -/
structure Reply where
  machine : Machine
  events : List Event
  result : Except Stop Unit

namespace Machine

/-- The word at the program counter. -/
def fetch (m : Machine) : Except Fault Word := m.memory.word m.pc.toNat

/-- Reports a fault and halts. -/
def halt (m : Machine) (events : List Event) (fault : Fault) : Reply where
  machine := { m with halted := true }
  events := events ++ [.halting m.pc m.fetch.toOption fault, .state m.snapshot]
  result := .error (.fault fault)

/-- What an instruction at `pc` makes the machine say beside its trace. -/
def remarks (pc : UInt16) : Instruction → List Event
  | .sys address => [.ignoring address pc]
  | _ => []

/-- Executes the instruction of a word that was fetched at the program counter. -/
def dispatch (m : Machine) (word : Word) (instruction : Instruction) : Reply :=
  let pc := m.pc
  let trace := Event.executing pc word instruction
  let said := trace :: remarks pc instruction
  match instruction.execute m with
  | .ok next m => ⟨{ m with pc := next }, said, .ok ()⟩
  | .error (.fault fault) m => m.halt [trace] fault
  | .error (.crash crash) m => ⟨m, [trace], .error (.crash crash)⟩

/-- Executes exactly one instruction. -/
def step (m : Machine) : Reply :=
  if m.halted then ⟨m, [], .error (.fault (.halted m.pc))⟩
  else match m.fetch with
    | .error fault => m.halt [] fault
    | .ok word => match word.decode with
      | .error fault => m.halt [] fault
      | .ok instruction => m.dispatch word instruction

/-- Loads a program image. Registers, program counter and screen stay as they are. -/
def load (m : Machine) (image : List UInt8) : Reply :=
  match m.memory.load image with
  | .ok memory => ⟨{ m with memory := memory }, [.loaded image.length], .ok ()⟩
  | .error fault => ⟨m, [], .error (.fault fault)⟩

/-- Lets both timers count down. -/
def tick (m : Machine) (ticks : UInt8) : Machine :=
  { m with delay := m.delay.elapse ticks, sound := m.sound.elapse ticks }

/-- Presses or releases a key. -/
def setKey (m : Machine) (key : Nat) (pressed : Bool) : Reply :=
  match m.keypad.set key pressed with
  | .ok keypad => ⟨{ m with keypad := keypad }, [], .ok ()⟩
  | .error fault => ⟨m, [], .error (.fault fault)⟩

end Machine

/-- A request to a machine. -/
inductive Operation where
  | load (image : List UInt8)
  | step
  /-- Both timers count down by this much. -/
  | tick (ticks : UInt8)
  | setKey (key : Nat) (pressed : Bool)
  deriving DecidableEq, Repr

namespace Machine

/-- Carries a request out. -/
def perform (m : Machine) : Operation → Reply
  | .load image => m.load image
  | .step => m.step
  | .tick ticks => ⟨m.tick ticks, [], .ok ()⟩
  | .setKey key pressed => m.setKey key pressed

/-- The machine after a list of requests, whatever their results. -/
def run (m : Machine) : List Operation → Machine
  | [] => m
  | op :: rest => run (m.perform op).machine rest

/-- The replies to a list of requests. -/
def replies (m : Machine) : List Operation → List Reply
  | [] => []
  | op :: rest => m.perform op :: replies (m.perform op).machine rest

end Machine

end Chip8
