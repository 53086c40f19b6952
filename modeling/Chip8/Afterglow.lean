import Chip8.Screen

/-!
# Afterglow

Programs move a sprite by erasing it and drawing it again, which makes it flicker. An `Afterglow`
keeps recently erased pixels faintly visible: each pixel is lit, fading since some age, or dark. An age
of one is the whole decay time.

All arithmetic is in single precision. What is not a number counts as the other operand of a maximum
or minimum.
-/
namespace Chip8

/-- What is still to be seen of a pixel. -/
inductive Glow where
  | lit
  | fading (age : Float32)
  | dark

namespace Glow

/-- The glow after an update in which the pixel is lit or not, and in which a fading pixel ages by
`aging`. -/
def next (g : Glow) (isLit : Bool) (aging : Float32) : Glow :=
  if isLit then .lit
  else match g with
    | .lit => .fading 0.0
    | .fading age => if age ≥ 1.0 then .dark else .fading (age + aging)
    | .dark => .dark

/-- The intensity at an age: `1 - 2 ^ (5 (age - 1))`, kept between 0 and 1. -/
def intensityAtAge (age : Float32) : Float32 :=
  let c := -(Float32.pow 2.0 ((age - 1.0) * 5.0)) + 1.0
  let above := if c > 0.0 then c else 0.0
  if above < 1.0 then above else 1.0

/-- How bright a pixel is, from 0 to 1. -/
def intensity : Glow → Float32
  | .lit => 1.0
  | .fading age => intensityAtAge age
  | .dark => 0.0

end Glow

/-- The characters for increasing intensity. -/
def shades : List Char := [' ', '.', ':', '+', '#']

/-- The character for an intensity: the next quarter up counts. -/
def shade (intensity : Float32) : Char :=
  shades.getD (min (intensity * 4.0).ceil.toUInt64.toNat 4) '#'

/-- The glow of every pixel of a screen. -/
structure Afterglow where
  /-- Seconds from erased to dark. -/
  decay : Float32
  /-- Row by row from the top left. -/
  glows : Vector Glow pixelCount

namespace Afterglow

/-- All pixels dark. -/
def new (decay : Float32) : Afterglow := ⟨decay, Vector.replicate pixelCount .dark⟩

/-- How much a fading pixel ages in a stretch of time; without a decay time, beyond all bounds. -/
def aging (decay seconds : Float32) : Float32 :=
  if decay > 0.0 then seconds / decay else 1.0 / 0.0

/-- Lets a stretch of time pass, at the end of which the screen shows `s`. -/
def update (a : Afterglow) (s : Screen) (seconds : Float32) : Afterglow :=
  let aging := aging a.decay seconds
  { a with glows := Vector.zipWith (fun g isLit => g.next isLit aging) a.glows s.pixels }

/-- The intensity of the pixel at 64-bit coordinates. Columns past the edge go on in the next row; a
position past the last pixel, or one that does not fit 64 bits, is a crash. -/
def intensityAt (a : Afterglow) (x y : UInt64) : Except Crash Float32 :=
  let start := y.toNat * screenWidth
  if coordinateLimit ≤ start then .error .multiplicationOverflow
  else if coordinateLimit ≤ start + x.toNat then .error .additionOverflow
  else if h : start + x.toNat < pixelCount then .ok a.glows[start + x.toNat].intensity
  else .error (.indexOutOfBounds pixelCount (start + x.toNat))

/-- The pixels as text, a character for each intensity. -/
def text (a : Afterglow) : String :=
  gridText fun x y => shade (a.glows.get ⟨pixelIndex x y, pixelIndex_lt x y⟩).intensity

end Afterglow

/-- A number of nanoseconds in seconds, as the sum of the whole seconds and the fraction, each rounded
on its own. -/
def secondsOfNanos (nanos : Nat) : Float32 :=
  (UInt64.ofNat (nanos / 1000000000)).toFloat32 +
    (UInt32.ofNat (nanos % 1000000000)).toFloat32 / 1000000000.0

end Chip8
