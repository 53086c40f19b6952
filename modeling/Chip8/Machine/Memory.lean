import Chip8.Fault

/-!
# Memory

4096 byte cells, addressed from zero. Addresses and lengths are unbounded naturals here: a request
that reaches past the last cell is refused, never wrapped, and the fault names the first cell of the
request that does not exist.

* `Memory.read`, `Memory.write`: one cell.
* `Memory.word`, `Memory.slice`, `Memory.store`: a range, which is checked as a whole before any of
  it is touched.
* `Memory.load`: a program image at `imageStart`, and the glyph table with it.
-/
namespace Chip8

/-- The contents of every cell. -/
structure Memory where
  cells : Vector UInt8 memorySize
  deriving DecidableEq

namespace Memory

/-- All cells zero. -/
def blank : Memory := ⟨Vector.replicate memorySize 0⟩

instance : Inhabited Memory := ⟨blank⟩

/-- Refuses a range that is not inside memory. -/
def checkRange (address length : Nat) : Except Fault Unit :=
  if address + length ≤ memorySize then .ok () else .error (.addressOutOfRange (max address memorySize))

/-- The byte in one cell. -/
def read (m : Memory) (address : Nat) : Except Fault UInt8 :=
  if h : address < memorySize then .ok m.cells[address] else .error (.addressOutOfRange address)

/-- Replaces the byte in one cell. -/
def write (m : Memory) (address : Nat) (value : UInt8) : Except Fault Memory :=
  if h : address < memorySize then .ok ⟨m.cells.set address value⟩ else .error (.addressOutOfRange address)

/-- The big-endian word in the cells `address` and `address + 1`. -/
def word (m : Memory) (address : Nat) : Except Fault UInt16 :=
  if h : address + 2 ≤ memorySize then
    .ok (UInt16.ofNat (256 * m.cells[address].toNat + m.cells[address + 1].toNat))
  else .error (.addressOutOfRange (max address memorySize))

/-- The bytes of a range. -/
def slice (m : Memory) (address length : Nat) : Except Fault (List UInt8) := do
  checkRange address length
  return (m.cells.toArray.extract address (address + length)).toList

/-- Puts bytes into consecutive cells from `address` on; what would fall past the end is dropped. -/
def overlay (m : Memory) (address : Nat) : List UInt8 → Memory
  | [] => m
  | b :: rest => overlay ⟨m.cells.setIfInBounds address b⟩ (address + 1) rest

/-- Replaces the bytes of a range. -/
def store (m : Memory) (address : Nat) (bytes : List UInt8) : Except Fault Memory := do
  checkRange address bytes.length
  return m.overlay address bytes

/-- Sets every cell of a range to one value. -/
def fill (m : Memory) (address length : Nat) (value : UInt8) : Except Fault Memory := do
  checkRange address length
  return m.overlay address (List.replicate length value)

/-- Installs the glyph table. -/
def installGlyphs (m : Memory) : Memory := m.overlay glyphStart glyphTable

/-- Copies a program image to `imageStart` and installs the glyph table. An image that does not fit
is refused and nothing is written. -/
def load (m : Memory) (image : List UInt8) : Except Fault Memory :=
  if image.length ≤ maxImageSize then .ok (m.overlay imageStart image).installGlyphs
  else .error (.programTooLarge image.length)

end Memory

end Chip8
