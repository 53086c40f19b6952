import Chip8.Machine.Layout
import Chip8.Text.Hex

/-!
# Why the machine stops

A `Fault` is the machine's own verdict on a program or a request: it is reported, and a fault met
while stepping halts the machine. A `Crash` is a broken arithmetic or indexing assumption of the
interpreter itself: nothing continues after one. `Stop` is either.

Each cause carries the value that its message shows; the wording is in `Fault.message`,
`Fault.summary` and `Crash.message` and nowhere else.
-/
namespace Chip8

/-- What the machine can refuse, with the value it refused. -/
inductive Fault where
  /-- The word is in no row of the opcode table. -/
  | unknownOpcode (word : UInt16)
  /-- The program image has this many bytes, more than fit. -/
  | programTooLarge (size : Nat)
  /-- No memory cell has this address. -/
  | addressOutOfRange (address : Nat)
  /-- A call with every frame in use. -/
  | stackOverflow
  /-- A return with no frame in use. -/
  | stackUnderflow
  /-- No key has this number. -/
  | invalidKey (key : Nat)
  /-- The machine stopped earlier, at this address. -/
  | halted (pc : UInt16)
  deriving DecidableEq, Repr

namespace Fault

/-- What a fault is about, without its value. -/
def summary : Fault → String
  | unknownOpcode _ => "unknown opcode"
  | programTooLarge _ => "program image does not fit into memory"
  | addressOutOfRange _ => "address out of range"
  | stackOverflow => "call stack overflow"
  | stackUnderflow => "return with empty call stack"
  | invalidKey _ => "invalid key index"
  | halted _ => "machine is halted"

/-- The full report of a fault. -/
def message : Fault → String
  | unknownOpcode word => s!"unknown opcode {Text.hexWord word}"
  | programTooLarge size => s!"program image is {size} bytes, at most {maxImageSize} fit"
  | addressOutOfRange address => s!"address {Text.hex 4 address} is outside of memory"
  | stackOverflow => "call stack overflow"
  | stackUnderflow => "return with empty call stack"
  | invalidKey key => s!"key index {Text.hex 1 key} is out of range"
  | halted pc => s!"machine halted at {Text.hexWord pc}"

end Fault

/-- An assumption of the interpreter that did not hold. -/
inductive Crash where
  /-- A sequence of `size` elements was asked for element `index`. -/
  | indexOutOfBounds (size index : Nat)
  | divisionByZero
  /-- A sum does not fit its integer width. -/
  | additionOverflow
  /-- A product does not fit its integer width. -/
  | multiplicationOverflow
  /-- A sum of durations passes the longest duration. -/
  | durationOverflow
  deriving DecidableEq, Repr

/-- The report of a crash. -/
def Crash.message : Crash → String
  | .indexOutOfBounds size index =>
    s!"index out of bounds: the len is {size} but the index is {index}"
  | .divisionByZero => "attempt to divide by zero"
  | .additionOverflow => "attempt to add with overflow"
  | .multiplicationOverflow => "attempt to multiply with overflow"
  | .durationOverflow => "overflow when adding durations"

/-- Why an operation did not finish. -/
inductive Stop where
  | fault (cause : Fault)
  | crash (cause : Crash)
  deriving DecidableEq, Repr

end Chip8
