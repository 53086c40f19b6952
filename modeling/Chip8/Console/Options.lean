import Chip8.Console.Arguments
import Chip8.Machine.State
import Chip8.Text.Blank
import Chip8.Text.Numeral

/-!
# Options

What a command line asks for, with its values understood. Blank characters around a number are
ignored. Keys are a comma-separated list of hexadecimal numbers below sixteen. Of several values that
make no sense the first of rate, decay time, keys, frames and seed is reported.
-/
namespace Chip8.Console

/-- A value that makes no sense. -/
inductive OptionError where
  | invalidNumber (option : ValueOption) (value : String)
  | invalidKeys (list : String)
  deriving DecidableEq, Repr

/-- The report of a value that makes no sense. -/
def OptionError.message : OptionError → String
  | .invalidNumber option value => s!"invalid value '{value}' for --{option.longName}"
  | .invalidKeys list => s!"invalid key list '{list}', expected hex digits like 5,a,F"

/-- What to run and how. -/
structure Options where
  /-- Path of the program image. -/
  image : String
  /-- Instruction cycles per second. -/
  rate : Nat
  /-- Seconds in which an erased pixel fades. -/
  decay : Float32
  /-- Keys held down from the beginning. -/
  keys : List Nat
  /-- Number of frames to stop after. -/
  frames : Option Nat
  /-- Seed of the random bytes; without one they differ from run to run. -/
  seed : Option UInt64
  dialect : Dialect
  /-- Draw every frame, not only the last screen. -/
  live : Bool
  /-- Take each frame to last its nominal time, and do not wait. -/
  headless : Bool

/-- One key of a key list. -/
def key? (piece : List Char) : Option Nat := Text.natural? 16 keyCount (Text.trim piece)

/-- The keys of a key list, in order. -/
def keys? (list : String) : Option (List Nat) := (list.toList.splitOn ',').mapM key?

namespace Options

/-- The number given for an option, if the option was given. -/
def number {α : Type} (a : Arguments) (o : ValueOption) (read : List Char → Option α) :
    Except OptionError (Option α) :=
  match a.value? o with
  | none => .ok none
  | some text => match read (Text.trim text.toList) with
    | some n => .ok (some n)
    | none => .error (.invalidNumber o text)

/-- The keys given, none if the option was not given. -/
def heldKeys (a : Arguments) : Except OptionError (List Nat) :=
  match a.value? .keys with
  | none => .ok []
  | some list => match keys? list with
    | some keys => .ok keys
    | none => .error (.invalidKeys list)

/-- Understands the values of a command line. -/
def ofArguments (a : Arguments) : Except OptionError Options := do
  let rate ← number a .rate (Text.natural? 10 0x100000000)
  let decay ← number a .decay Text.single?
  let keys ← heldKeys a
  let frames ← number a .frames (Text.natural? 10 0x10000000000000000)
  let seed ← number a .seed (Text.natural? 10 0x10000000000000000)
  return {
    image := a.image.getD ""
    rate := rate.getD 500
    decay := decay.getD 0.1
    keys := keys
    frames := frames
    seed := seed.map UInt64.ofNat
    dialect := if a.has .modern then .modern else .classic
    live := a.has .live
    headless := a.has .headless }

end Options

end Chip8.Console
