/-!
# Instructions

The instruction set as data. An `Instruction` is what one two-byte word asks the machine to do;
`Chip8.Instruction.Encoding` relates the two and `Chip8.Instruction.Assembly` writes instructions
as text. Operand fields are as wide as the integers that hold them, so an address field may carry
more than the twelve bits that a word has room for.
-/
namespace Chip8

/-- The sixteen general registers `V0` to `VF`. -/
abbrev Register := Fin 16

namespace Register

/-- `VF`, which receives carry, borrow, shifted-out bit and sprite collision. -/
def flag : Register := 15

/-- `V0`, which a jump with offset adds to its address. -/
def offset : Register := ⟨0, by decide⟩

/-- The register with a given number, if there is one. -/
def ofInt? (n : Int) : Option Register :=
  if h : 0 ≤ n ∧ n < 16 then some ⟨n.toNat, by omega⟩ else none

end Register

/-- What the `8xy?` family computes from two registers. -/
inductive AluOp where
  | copy
  | or
  | and
  | xor
  | add
  | subtract
  | shiftRight
  /-- The other way round: `Vy - Vx`. -/
  | subtractFrom
  | shiftLeft
  deriving DecidableEq, Repr

/-- One instruction. `negated` turns a skip on a condition into a skip on its opposite. -/
inductive Instruction where
  /-- `00E0`: blank the screen. -/
  | clearScreen
  /-- `00EE`: continue after the latest call. -/
  | ret
  /-- `0nnn`: a routine in the host's own code; nothing happens. -/
  | sys (address : UInt16)
  /-- `1nnn` -/
  | jump (address : UInt16)
  /-- `2nnn` -/
  | call (address : UInt16)
  /-- `3xkk`, negated `4xkk`: skip if `Vx` is the constant. -/
  | skipConst (x : Register) (value : UInt8) (negated : Bool)
  /-- `5xy0`, negated `9xy0`: skip if `Vx` is `Vy`. -/
  | skipSame (x y : Register) (negated : Bool)
  /-- `6xkk` -/
  | put (x : Register) (value : UInt8)
  /-- `7xkk`: add a constant, wrapping, without touching the flag. -/
  | addConst (x : Register) (value : UInt8)
  /-- `8xy?` -/
  | alu (op : AluOp) (x y : Register)
  /-- `Annn` -/
  | setIndex (address : UInt16)
  /-- `Bnnn`: jump to the address plus `V0`. -/
  | jumpOffset (address : UInt16)
  /-- `Cxkk`: a random byte, masked. -/
  | random (x : Register) (mask : UInt8)
  /-- `Dxyn`: draw the `n` bytes at the index at column `Vx`, row `Vy`. -/
  | draw (x y : Register) (rows : UInt8)
  /-- `Ex9E`, negated `ExA1`: skip if key `Vx` is down. -/
  | skipKey (x : Register) (negated : Bool)
  /-- `Fx07` -/
  | readDelay (x : Register)
  /-- `Fx0A`: wait until a key is down and take its number. -/
  | awaitKey (x : Register)
  /-- `Fx15` -/
  | setDelay (x : Register)
  /-- `Fx18` -/
  | setSound (x : Register)
  /-- `Fx1E` -/
  | addIndex (x : Register)
  /-- `Fx29`: point the index at the glyph of a digit. -/
  | pointGlyph (x : Register)
  /-- `Fx33`: store the three decimal digits of `Vx`. -/
  | storeDecimal (x : Register)
  /-- `Fx55`: store `V0` to `Vx`. -/
  | storeRegisters (x : Register)
  /-- `Fx65`: load `V0` to `Vx`. -/
  | loadRegisters (x : Register)
  deriving DecidableEq, Repr

end Chip8
