import Chip8.Fault
import Chip8.Instruction.Basic

/-!
# Instruction words

A word is read as six overlapping fields: the family (top four bits), the register numbers `x` and
`y`, the nibble `n`, the byte `kk` and the address `nnn`.

* `Word.decode` finds the instruction of a word, or refuses the word as an unknown opcode.
* `Instruction.encode` writes the word of an instruction, dropping what does not fit a field.
-/
namespace Chip8

/-- A two-byte instruction word, as fetched from memory. -/
abbrev Word := UInt16

namespace Word

/-- The top four bits. -/
def family (w : Word) : Nat := w.toNat / 4096

/-- The register named by the second nibble. -/
def x (w : Word) : Register := ⟨w.toNat / 256 % 16, by omega⟩

/-- The register named by the third nibble. -/
def y (w : Word) : Register := ⟨w.toNat / 16 % 16, by omega⟩

/-- The last nibble. -/
def n (w : Word) : UInt8 := UInt8.ofNat (w.toNat % 16)

/-- The last byte. -/
def kk (w : Word) : UInt8 := UInt8.ofNat (w.toNat % 256)

/-- The last twelve bits. -/
def nnn (w : Word) : UInt16 := UInt16.ofNat (w.toNat % 4096)

end Word

namespace AluOp

/-- The last nibble of the operation's word. -/
def code : AluOp → Nat
  | copy => 0x0
  | or => 0x1
  | and => 0x2
  | xor => 0x3
  | add => 0x4
  | subtract => 0x5
  | shiftRight => 0x6
  | subtractFrom => 0x7
  | shiftLeft => 0xE

/-- The operation with a given last nibble; seven nibbles have none. -/
def ofCode? : Nat → Option AluOp
  | 0x0 => some copy
  | 0x1 => some or
  | 0x2 => some and
  | 0x3 => some xor
  | 0x4 => some add
  | 0x5 => some subtract
  | 0x6 => some shiftRight
  | 0x7 => some subtractFrom
  | 0xE => some shiftLeft
  | _ => none

end AluOp

namespace Word

/-- The instruction of a word in family `0xE`, which the last byte tells apart. -/
def decodeKey? (w : Word) : Option Instruction :=
  match w.kk.toNat with
  | 0x9E => some (.skipKey w.x false)
  | 0xA1 => some (.skipKey w.x true)
  | _ => none

/-- The instruction of a word in family `0xF`, which the last byte tells apart. -/
def decodeMisc? (w : Word) : Option Instruction :=
  match w.kk.toNat with
  | 0x07 => some (.readDelay w.x)
  | 0x0A => some (.awaitKey w.x)
  | 0x15 => some (.setDelay w.x)
  | 0x18 => some (.setSound w.x)
  | 0x1E => some (.addIndex w.x)
  | 0x29 => some (.pointGlyph w.x)
  | 0x33 => some (.storeDecimal w.x)
  | 0x55 => some (.storeRegisters w.x)
  | 0x65 => some (.loadRegisters w.x)
  | _ => none

/-- The opcode table: the instruction of a word, if it has one. -/
def decode? (w : Word) : Option Instruction :=
  match w.family with
  | 0x0 => if w = 0x00E0 then some .clearScreen else if w = 0x00EE then some .ret else some (.sys w.nnn)
  | 0x1 => some (.jump w.nnn)
  | 0x2 => some (.call w.nnn)
  | 0x3 => some (.skipConst w.x w.kk false)
  | 0x4 => some (.skipConst w.x w.kk true)
  | 0x5 => if w.n = 0 then some (.skipSame w.x w.y false) else none
  | 0x6 => some (.put w.x w.kk)
  | 0x7 => some (.addConst w.x w.kk)
  | 0x8 => (AluOp.ofCode? w.n.toNat).map fun op => .alu op w.x w.y
  | 0x9 => if w.n = 0 then some (.skipSame w.x w.y true) else none
  | 0xA => some (.setIndex w.nnn)
  | 0xB => some (.jumpOffset w.nnn)
  | 0xC => some (.random w.x w.kk)
  | 0xD => some (.draw w.x w.y w.n)
  | 0xE => w.decodeKey?
  | _ => w.decodeMisc?

/-- The instruction of a word; a word outside the table is an unknown opcode. -/
def decode (w : Word) : Except Fault Instruction :=
  match w.decode? with
  | some i => .ok i
  | none => .error (.unknownOpcode w)

/-- The word with a given family and twelve bits below it. -/
def ofAddress (family : Nat) (address : UInt16) : Word :=
  UInt16.ofNat (4096 * family + address.toNat % 4096)

/-- The word with a given family, register and last byte. -/
def ofByte (family : Nat) (x : Register) (low : Nat) : Word :=
  UInt16.ofNat (4096 * family + 256 * x.val + low)

/-- The word with a given family, two registers and last nibble. -/
def ofNibble (family : Nat) (x y : Register) (low : Nat) : Word :=
  UInt16.ofNat (4096 * family + 256 * x.val + 16 * y.val + low)

end Word

/-- The word of an instruction. Of an address only the low twelve bits are kept, of a sprite height
only the low four. -/
def Instruction.encode : Instruction → Word
  | clearScreen => 0x00E0
  | ret => 0x00EE
  | sys address => .ofAddress 0x0 address
  | jump address => .ofAddress 0x1 address
  | call address => .ofAddress 0x2 address
  | skipConst x value negated => .ofByte (if negated then 0x4 else 0x3) x value.toNat
  | skipSame x y negated => .ofNibble (if negated then 0x9 else 0x5) x y 0
  | put x value => .ofByte 0x6 x value.toNat
  | addConst x value => .ofByte 0x7 x value.toNat
  | alu op x y => .ofNibble 0x8 x y op.code
  | setIndex address => .ofAddress 0xA address
  | jumpOffset address => .ofAddress 0xB address
  | random x mask => .ofByte 0xC x mask.toNat
  | draw x y rows => .ofNibble 0xD x y (rows.toNat % 16)
  | skipKey x negated => .ofByte 0xE x (if negated then 0xA1 else 0x9E)
  | readDelay x => .ofByte 0xF x 0x07
  | awaitKey x => .ofByte 0xF x 0x0A
  | setDelay x => .ofByte 0xF x 0x15
  | setSound x => .ofByte 0xF x 0x18
  | addIndex x => .ofByte 0xF x 0x1E
  | pointGlyph x => .ofByte 0xF x 0x29
  | storeDecimal x => .ofByte 0xF x 0x33
  | storeRegisters x => .ofByte 0xF x 0x55
  | loadRegisters x => .ofByte 0xF x 0x65

end Chip8
