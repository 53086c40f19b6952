/-!
# Hexadecimal text

Machine values are written in base sixteen. `hex width n` is the one writer: lower case, most
significant digit first, zeros in front up to `width` digits, and never fewer digits than the
value needs.
-/
namespace Chip8.Text

/-- The digits of `n` in base sixteen, with zeros in front up to `width` digits. -/
def hexDigits (width n : Nat) : List Char :=
  (Nat.toDigits 16 n).leftpad width '0'

/-- `n` in lower-case base sixteen with at least `width` digits. -/
def hex (width n : Nat) : String :=
  String.ofList (hexDigits width n)

/-- A byte as two digits. -/
def hexByte (b : UInt8) : String := hex 2 b.toNat

/-- A word as four digits. -/
def hexWord (w : UInt16) : String := hex 4 w.toNat

end Chip8.Text
