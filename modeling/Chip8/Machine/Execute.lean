import Chip8.Instruction.Basic
import Chip8.Machine.State

/-!
# Executing one instruction

`Instruction.execute` changes the machine and answers the address to continue at. It is written over
a small vocabulary: read or write a register, load or store bytes at the index, do a checked operation
(`attempt`), skip the instruction after this one (`skipIf`). `Action` keeps the machine also when an
instruction stops half-way, so that "a fault leaves the machine as it was" is a fact about the
instructions and not about the type.
-/
namespace Chip8

/-- A change of the machine that may stop. -/
abbrev Action := EStateM Stop Machine

namespace Action

/-- The result of a checked operation; a refusal stops the action as a fault. -/
def attempt {α : Type} : Except Fault α → Action α
  | .ok a => pure a
  | .error f => throw (.fault f)

/-- The result of an operation on the call stack. -/
def attemptStack {α : Type} : Except Stop α → Action α
  | .ok a => pure a
  | .error s => throw s

/-- The address two past another. -/
def afterWord (address : UInt16) : Action UInt16 :=
  if address.toNat + 2 < 65536 then pure (address + 2) else throw (.crash .additionOverflow)

/-- Where to continue, given the address after this instruction: one word further if a condition
holds. -/
def skipIf (condition : Bool) (next : UInt16) : Action UInt16 :=
  if condition then afterWord next else pure next

/-- The byte in a register. -/
def reg (x : Register) : Action UInt8 := return (← get).registers.get x

/-- Replaces the byte in a register. -/
def setReg (x : Register) (value : UInt8) : Action Unit :=
  modify fun m => { m with registers := m.registers.set x value }

/-- The bytes in memory from the index on. -/
def loadIndexed (count : Nat) : Action (List UInt8) := do
  let m ← get
  attempt (m.memory.slice m.index.toNat count)

/-- Puts bytes into memory from the index on. The range is checked before any cell changes. -/
def storeIndexed (bytes : List UInt8) : Action Unit := do
  attempt (Memory.checkRange (← get).index.toNat bytes.length)
  modify fun m => { m with memory := m.memory.overlay m.index.toNat bytes }

/-- Moves the index past bytes that were stored or loaded, if the dialect wants that. -/
def moveIndex (count : Nat) : Action Unit :=
  modify fun m => if m.dialect.advancesIndex then { m with index := m.index + UInt16.ofNat count } else m

/-- Draws a sprite and tells whether a lit pixel was turned off. -/
def drawSprite (column row : UInt8) (sprite : List UInt8) : Action Bool :=
  modifyGet fun m =>
    let (screen, hit) := m.screen.draw column.toNat row.toNat sprite
    (hit, { m with screen := screen })

end Action

namespace AluOp

/-- What an operation makes of `Vx`, `Vy` and the operand of the shifts: the new `Vx`, and the new flag
if the operation sets it. -/
def compute (op : AluOp) (x y operand : UInt8) : UInt8 × Option UInt8 :=
  match op with
  | copy => (y, none)
  | or => (x ||| y, none)
  | and => (x &&& y, none)
  | xor => (x ^^^ y, none)
  | add => (x + y, some (if x.toNat + y.toNat > 255 then 1 else 0))
  | subtract => (x - y, some (if x < y then 0 else 1))
  | shiftRight => (operand / 2, some (operand % 2))
  | subtractFrom => (y - x, some (if y < x then 0 else 1))
  | shiftLeft => (operand * 2, some (operand / 128))

end AluOp

namespace Registers

/-- Applies an operation. The flag is written last, so that `VF` holds it even where it is `Vx`. -/
def applyAlu (r : Registers) (dialect : Dialect) (op : AluOp) (x y : Register) : Registers :=
  let operand := if dialect.shiftReadsVy then r.get y else r.get x
  match op.compute (r.get x) (r.get y) operand with
  | (value, none) => r.set x value
  | (value, some flag) => (r.set x value).set .flag flag

end Registers

/-- The three decimal digits of a byte. -/
def decimalDigits (v : UInt8) : List UInt8 := [v / 100, v / 10 % 10, v % 10]

namespace Instruction

open Chip8.Action

/-- What an instruction does at address `pc`, where `next` is the address after it. The answer is the
address to continue at. -/
def effect (pc next : UInt16) : Instruction → Action UInt16
  | clearScreen => do
    modify fun m => { m with screen := .blank }
    return next
  | ret => do
    let (address, stack) ← attemptStack (← get).stack.pop
    modify fun m => { m with stack := stack }
    return address
  | sys _ => return next
  | jump address => return address
  | call address => do
    let stack ← attemptStack ((← get).stack.push next)
    modify fun m => { m with stack := stack }
    return address
  | skipConst x value negated => do skipIf (((← reg x) == value) != negated) next
  | skipSame x y negated => do skipIf (((← reg x) == (← reg y)) != negated) next
  | put x value => do
    setReg x value
    return next
  | addConst x value => do
    setReg x ((← reg x) + value)
    return next
  | alu op x y => do
    modify fun m => { m with registers := m.registers.applyAlu m.dialect op x y }
    return next
  | setIndex address => do
    modify fun m => { m with index := address }
    return next
  | jumpOffset address => do
    let target := address.toNat + (← reg .offset).toNat
    if target < memorySize then return UInt16.ofNat target
    else throw (.fault (.addressOutOfRange target))
  | random x mask => do
    let byte := (← get).random.next
    modify fun m => { m with random := m.random.advance }
    setReg x (byte &&& mask)
    return next
  | draw x y rows => do
    let column ← reg x
    let row ← reg y
    let sprite ← loadIndexed rows.toNat
    let hit ← drawSprite column row sprite
    setReg .flag (if hit then 1 else 0)
    return next
  | skipKey x negated => do
    let key := (← reg x).toNat
    let pressed ← attempt ((← get).keypad.isDown key)
    skipIf (pressed != negated) next
  | readDelay x => do
    setReg x (← get).delay.left
    return next
  | awaitKey x => do
    match (← get).keypad.lowestDown with
    | some key =>
      setReg x (UInt8.ofNat key)
      return next
    | none => return pc
  | setDelay x => do
    let ticks ← reg x
    modify fun m => { m with delay := ⟨ticks⟩ }
    return next
  | setSound x => do
    let ticks ← reg x
    modify fun m => { m with sound := ⟨ticks⟩ }
    return next
  | addIndex x => do
    let offset ← reg x
    modify fun m => { m with index := m.index + offset.toUInt16 }
    return next
  | pointGlyph x => do
    let digit := (← reg x).toNat % 16
    modify fun m => { m with index := UInt16.ofNat (glyphStart + digit * glyphSize) }
    return next
  | storeDecimal x => do
    storeIndexed (decimalDigits (← reg x))
    return next
  | storeRegisters x => do
    storeIndexed ((← get).registers.upTo x)
    moveIndex (x.val + 1)
    return next
  | loadRegisters x => do
    let bytes ← loadIndexed (x.val + 1)
    modify fun m => { m with registers := m.registers.overlay 0 bytes }
    moveIndex (x.val + 1)
    return next

/-- Executes an instruction and answers the address to continue at. -/
def execute (instruction : Instruction) : Action UInt16 := do
  let pc := (← get).pc
  let next ← afterWord pc
  instruction.effect pc next

end Instruction

end Chip8
