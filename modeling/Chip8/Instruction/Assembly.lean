import Chip8.Instruction.Basic
import Chip8.Text.Hex

/-!
# Assembly text

Every instruction has one line of assembly: a mnemonic and its operands, constants in base sixteen
(addresses with three digits, bytes with two) and sprite heights in base ten. Different instructions
have different lines.
-/
namespace Chip8

/-- The register's name: `V` and one upper-case digit. -/
def Register.name (r : Register) : String :=
  String.ofList ('V' :: (Nat.toDigits 16 r.val).map Char.toUpper)

/-- The operation's mnemonic. -/
def AluOp.mnemonic : AluOp → String
  | copy => "LD"
  | or => "OR"
  | and => "AND"
  | xor => "XOR"
  | add => "ADD"
  | subtract => "SUB"
  | shiftRight => "SHR"
  | subtractFrom => "SUBN"
  | shiftLeft => "SHL"

namespace Instruction

/-- An address operand. -/
def addressText (a : UInt16) : String := "0x" ++ Text.hex 3 a.toNat

/-- A byte operand. -/
def byteText (b : UInt8) : String := "0x" ++ Text.hex 2 b.toNat

/-- The instruction as a line of assembly. -/
def assembly : Instruction → String
  | clearScreen => "CLS"
  | ret => "RET"
  | sys address => "SYS " ++ addressText address
  | jump address => "JP " ++ addressText address
  | call address => "CALL " ++ addressText address
  | skipConst x value negated =>
    (if negated then "SNE " else "SE ") ++ x.name ++ ", " ++ byteText value
  | skipSame x y negated => (if negated then "SNE " else "SE ") ++ x.name ++ ", " ++ y.name
  | put x value => "LD " ++ x.name ++ ", " ++ byteText value
  | addConst x value => "ADD " ++ x.name ++ ", " ++ byteText value
  | alu op x y => op.mnemonic ++ " " ++ x.name ++ ", " ++ y.name
  | setIndex address => "LD I, " ++ addressText address
  | jumpOffset address => "JP V0, " ++ addressText address
  | random x mask => "RND " ++ x.name ++ ", " ++ byteText mask
  | draw x y rows => "DRW " ++ x.name ++ ", " ++ y.name ++ ", " ++ toString rows.toNat
  | skipKey x negated => (if negated then "SKNP " else "SKP ") ++ x.name
  | readDelay x => "LD " ++ x.name ++ ", DT"
  | awaitKey x => "LD " ++ x.name ++ ", K"
  | setDelay x => "LD DT, " ++ x.name
  | setSound x => "LD ST, " ++ x.name
  | addIndex x => "ADD I, " ++ x.name
  | pointGlyph x => "LD F, " ++ x.name
  | storeDecimal x => "LD B, " ++ x.name
  | storeRegisters x => "LD [I], " ++ x.name
  | loadRegisters x => "LD " ++ x.name ++ ", [I]"

end Instruction

end Chip8
