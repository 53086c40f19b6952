import Chip8.Fault

/-!
# Screen

64 by 32 pixels, lit or dark, row by row. Sprites are drawn by toggling: each set bit of a sprite
flips the pixel under it, and what leaves the screen at one edge comes back at the opposite one.

* `Screen.draw` takes any coordinates and tells whether a lit pixel was turned off on the way.
* `Screen.drawAt` is the same for coordinates of 64 bits, whose sums can overflow.
* `Screen.text` writes the screen as 32 lines.
-/
namespace Chip8

/-- Pixels in a row. -/
def screenWidth : Nat := 64

/-- Rows. -/
def screenHeight : Nat := 32

/-- Coordinates of 64 bits are below this number. -/
def coordinateLimit : Nat := 0x10000000000000000

/-- Pixels on the screen. -/
def pixelCount : Nat := screenWidth * screenHeight

/-- The pixels, row by row from the top left. -/
structure Screen where
  pixels : Vector Bool pixelCount
  deriving DecidableEq

/-- The columns of the set bits of a sprite row, from the left. -/
def spriteColumns (row : UInt8) : List Nat :=
  (List.range 8).filter fun c => row.toNat.testBit (7 - c)

/-- The coordinates of the set bits of a sprite whose top left is at `(x, y)`, row by row. -/
def spritePoints (x y : Nat) (sprite : List UInt8) : List (Nat × Nat) :=
  sprite.zipIdx.flatMap fun (row, r) => (spriteColumns row).map fun c => (x + c, y + r)

/-- Where the pixel at coordinates taken modulo the screen size is in the row-by-row order. -/
def pixelIndex (x y : Nat) : Nat := y % screenHeight * screenWidth + x % screenWidth

theorem pixelIndex_lt (x y : Nat) : pixelIndex x y < pixelCount := by
  simp only [pixelIndex, pixelCount, screenHeight, screenWidth]; omega

/-- Characters of a text with one line for each row of pixels, each line ended by a line feed. -/
def gridText (f : Nat → Nat → Char) : String :=
  String.ofList <| (List.range screenHeight).flatMap fun y =>
    (List.range screenWidth).map (fun x => f x y) ++ ['\n']

namespace Screen

/-- All pixels dark. -/
def blank : Screen := ⟨Vector.replicate pixelCount false⟩

instance : Inhabited Screen := ⟨blank⟩

/-- Whether the pixel at coordinates taken modulo the screen size is lit. -/
def pixel (s : Screen) (x y : Nat) : Bool := s.pixels.get ⟨pixelIndex x y, pixelIndex_lt x y⟩

/-- Flips one pixel. -/
def toggle (s : Screen) (x y : Nat) : Screen :=
  ⟨s.pixels.set (pixelIndex x y) (!s.pixel x y) (pixelIndex_lt x y)⟩

/-- Flips one pixel, and keeps track of whether a lit pixel has been turned off. -/
def touch (st : Screen × Bool) (p : Nat × Nat) : Screen × Bool :=
  let lit := st.1.pixel p.1 p.2
  (st.1.toggle p.1 p.2, st.2 || lit)

/-- Draws a sprite, one byte for each row and the leftmost pixel in the highest bit, with its top left
at `(x, y)`. The answer tells whether a lit pixel was turned off. -/
def draw (s : Screen) (x y : Nat) (sprite : List UInt8) : Screen × Bool :=
  (spritePoints x y sprite).foldl touch (s, false)

/-- `draw` for 64-bit coordinates: a row or a set bit whose coordinate does not fit is a crash. -/
def drawAt (s : Screen) (x y : UInt64) (sprite : List UInt8) : Except Crash (Screen × Bool) :=
  if y.toNat + sprite.length ≤ coordinateLimit ∧
      (spritePoints x.toNat y.toNat sprite).all (fun p => decide (p.1 < coordinateLimit)) then
    .ok (s.draw x.toNat y.toNat sprite)
  else .error .additionOverflow

/-- Number of lit pixels. -/
def litCount (s : Screen) : Nat := s.pixels.toList.count true

/-- The row-by-row positions of the lit pixels, ascending. -/
def litPixels (s : Screen) : List Nat :=
  (List.range pixelCount).filter fun i => s.pixels[i]?.getD false

/-- The screen as text: `#` for a lit pixel and `.` for a dark one. -/
def text (s : Screen) : String := gridText fun x y => if s.pixel x y then '#' else '.'

end Screen

end Chip8
