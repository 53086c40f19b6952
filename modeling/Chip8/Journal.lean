import Chip8.Instruction.Assembly
import Chip8.Instruction.Encoding
import Chip8.Machine.State

/-!
# Journal

What a machine tells about its work. An `Event` is a fact with its values, `Event.level` how much it
matters and `Event.message` the line that reports it.
-/
namespace Chip8

/-- How much a record matters, the gravest first. -/
inductive Level where
  | error
  | warning
  | info
  | debug
  | trace
  deriving DecidableEq, Repr

namespace Level

/-- Place in the order of gravity, from 1. -/
def rank : Level → Nat
  | error => 1
  | warning => 2
  | info => 3
  | debug => 4
  | trace => 5

/-- The level's name in log lines. -/
def name : Level → String
  | error => "ERROR"
  | warning => "WARN"
  | info => "INFO"
  | debug => "DEBUG"
  | trace => "TRACE"

end Level

/-- Something the machine did or met. -/
inductive Event where
  /-- A program image of this many bytes was loaded. -/
  | loaded (size : Nat)
  /-- The word at `pc` was decoded and is about to be executed. -/
  | executing (pc : UInt16) (word : Word) (instruction : Instruction)
  /-- A call into the host's own code, at `pc`, was passed over. -/
  | ignoring (address pc : UInt16)
  /-- The instruction at `pc` met a fault; there is no word if `pc` is outside memory. -/
  | halting (pc : UInt16) (word : Option Word) (fault : Fault)
  /-- The machine as the fault found it. -/
  | state (snapshot : Snapshot)
  deriving DecidableEq, Repr

namespace Event

/-- How much an event matters. -/
def level : Event → Level
  | loaded _ => .debug
  | executing .. => .trace
  | ignoring .. => .warning
  | halting .. => .error
  | state _ => .debug

/-- The line that reports an event. -/
def message : Event → String
  | loaded size => s!"loaded {size} byte program at {Text.hex 4 imageStart}"
  | executing pc word instruction =>
    s!"{Text.hexWord pc}: {Text.hexWord word}  {instruction.assembly}"
  | ignoring address pc => s!"ignoring SYS {Text.hex 3 address.toNat} at {Text.hexWord pc}"
  | halting pc word fault =>
    let shown := (word.map Text.hexWord).getD "----"
    s!"halting at {Text.hexWord pc} (word {shown}): {fault.message}"
  | state snapshot => snapshot.text

end Event

end Chip8
