import Chip8.Fault
import Chip8.Instruction.Assembly

/-!
# Register file

One byte for each of the registers `V0` to `VF`. A `Register` always names one of them; by position
(`readAt`, `writeAt`) a number from sixteen on names none, which is a crash.
-/
namespace Chip8

/-- The contents of the general registers. -/
structure Registers where
  values : Vector UInt8 16
  deriving DecidableEq, Repr

namespace Registers

/-- All registers zero. -/
def blank : Registers := ⟨Vector.replicate 16 0⟩

instance : Inhabited Registers := ⟨blank⟩

/-- The byte in a register. -/
def get (r : Registers) (x : Register) : UInt8 := r.values[x]

/-- Replaces the byte in a register. -/
def set (r : Registers) (x : Register) (value : UInt8) : Registers := ⟨r.values.set x value⟩

/-- The byte in the register at a position. -/
def readAt (r : Registers) (position : Nat) : Except Crash UInt8 :=
  if h : position < 16 then .ok r.values[position] else .error (.indexOutOfBounds 16 position)

/-- Replaces the byte in the register at a position. -/
def writeAt (r : Registers) (position : Nat) (value : UInt8) : Except Crash Registers :=
  if h : position < 16 then .ok ⟨r.values.set position value⟩
  else .error (.indexOutOfBounds 16 position)

/-- The bytes in `V0` to `Vx`. -/
def upTo (r : Registers) (x : Register) : List UInt8 := r.values.toList.take (x.val + 1)

/-- Puts bytes into consecutive registers from position `position` on; what would fall past `VF` is
dropped. -/
def overlay (r : Registers) (position : Nat) : List UInt8 → Registers
  | [] => r
  | b :: rest => overlay ⟨r.values.setIfInBounds position b⟩ (position + 1) rest

/-- The registers by name, as they appear in a snapshot of the machine. -/
def text (r : Registers) : String :=
  let fields := (List.finRange 16).map fun x => s!"{Register.name x}: {Text.hexByte (r.get x)}"
  "RegFile \x7b " ++ ", ".intercalate fields ++ " \x7d"

end Registers

end Chip8
