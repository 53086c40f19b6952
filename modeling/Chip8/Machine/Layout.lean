/-!
# Memory map

Where things are in the 4096 cells of memory: the glyph table low down, the program image from
`0x200` to the end.
-/
namespace Chip8

/-- Number of memory cells. -/
def memorySize : Nat := 4096

/-- Where program images go and where execution starts. -/
def imageStart : Nat := 0x200

/-- Largest program image that fits between the program start and the end of memory. -/
def maxImageSize : Nat := memorySize - imageStart

/-- Where the glyph table is. -/
def glyphStart : Nat := 0x50

/-- Bytes of one glyph. -/
def glyphSize : Nat := 5

/-- The glyphs of the sixteen hexadecimal digits, five rows of eight pixels each. -/
def glyphTable : List UInt8 :=
  [0xF0, 0x90, 0x90, 0x90, 0xF0,
   0x20, 0x60, 0x20, 0x20, 0x70,
   0xF0, 0x10, 0xF0, 0x80, 0xF0,
   0xF0, 0x10, 0xF0, 0x10, 0xF0,
   0x90, 0x90, 0xF0, 0x10, 0x10,
   0xF0, 0x80, 0xF0, 0x10, 0xF0,
   0xF0, 0x80, 0xF0, 0x90, 0xF0,
   0xF0, 0x10, 0x20, 0x40, 0x40,
   0xF0, 0x90, 0xF0, 0x90, 0xF0,
   0xF0, 0x90, 0xF0, 0x10, 0xF0,
   0xF0, 0x90, 0xF0, 0x90, 0x90,
   0xE0, 0x90, 0xE0, 0x90, 0xE0,
   0xF0, 0x80, 0x80, 0x80, 0xF0,
   0xE0, 0x90, 0x90, 0x90, 0xE0,
   0xF0, 0x80, 0xF0, 0x80, 0xF0,
   0xF0, 0x80, 0xF0, 0x80, 0x80]

end Chip8
