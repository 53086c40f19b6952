import Chip8.Machine.CallStack
import Chip8.Machine.Countdown
import Chip8.Machine.Keypad
import Chip8.Machine.Memory
import Chip8.Machine.Registers
import Chip8.Random.Stream
import Chip8.Screen

/-!
# The machine

`Machine` is everything that running a program can change, together with the `Dialect` it runs under
and the stream its random bytes come from. A `Snapshot` is the part of a machine that its diagnostic
text shows.
-/
namespace Chip8

/-- The two behaviours in which interpreters differ. -/
structure Dialect where
  /-- The shifts take `Vy` and put the result into `Vx`; otherwise `Vx` is shifted in place. -/
  shiftReadsVy : Bool
  /-- Storing and loading registers leaves the index past the last byte moved. -/
  advancesIndex : Bool
  deriving DecidableEq, Repr

namespace Dialect

/-- The behaviour of the first interpreter. -/
def classic : Dialect := ⟨true, true⟩

/-- The behaviour that most programs since 1990 expect. -/
def modern : Dialect := ⟨false, false⟩

instance : Inhabited Dialect := ⟨classic⟩

end Dialect

/-- A CHIP-8 machine. -/
structure Machine where
  memory : Memory
  registers : Registers
  stack : CallStack
  /-- Address of the next instruction. -/
  pc : UInt16
  /-- The index register `I`. -/
  index : UInt16
  delay : Countdown
  sound : Countdown
  screen : Screen
  keypad : Keypad
  random : RandomStream
  dialect : Dialect
  /-- Set by the first fault; a halted machine never steps again. -/
  halted : Bool
  deriving DecidableEq

/-- What the diagnostic text of a machine shows. -/
structure Snapshot where
  registers : Registers
  pc : UInt16
  index : UInt16
  delay : UInt8
  sound : UInt8
  depth : Nat
  /-- Return addresses in use, oldest first. -/
  frames : List UInt16
  halted : Bool
  deriving DecidableEq, Repr

/-- The diagnostic text. -/
def Snapshot.text (s : Snapshot) : String :=
  s!"Chip8 \x7b gpr: {s.registers.text}, pc: {Text.hexWord s.pc}, i: {Text.hexWord s.index}, " ++
  s!"dt: {Text.hexByte s.delay}, st: {Text.hexByte s.sound}, " ++
  s!"stack: {CallStack.describe s.depth s.frames}, halted: {s.halted} \x7d"

namespace Machine

/-- A machine with empty memory, about to execute at `imageStart`. -/
def new (dialect : Dialect) (random : RandomStream) : Machine where
  memory := .blank
  registers := .blank
  stack := .empty
  pc := UInt16.ofNat imageStart
  index := 0
  delay := .idle
  sound := .idle
  screen := .blank
  keypad := .released
  random := random
  dialect := dialect
  halted := false

instance : Inhabited Machine := ⟨new default default⟩

/-- The part of a machine that its diagnostic text shows. -/
def snapshot (m : Machine) : Snapshot where
  registers := m.registers
  pc := m.pc
  index := m.index
  delay := m.delay.left
  sound := m.sound.left
  depth := m.stack.depth
  frames := m.stack.live
  halted := m.halted

/-- Whether the sound timer keeps the buzzer on. -/
def beeping (m : Machine) : Bool := m.sound.running

end Machine

end Chip8
