/-!
# Command line

The grammar of the command line, before any value is understood.

An argument that starts with a dash and has more after it is an option; a lone dash is an ordinary
word. Options have a long name, most have a letter as well, and some take a value: after an equals sign
or as the next word for a long name, in the same word or as the next for a letter. After `--` every
argument is a word. There is one word, the program image.

`Arguments.parse` reads from left to right. A request for help or for the version is granted on the
spot, and an option that nobody knows or a second word is wrong on the spot. What can only be seen at
the end is wrong at the end: no image, an option given twice, an option without its value.
-/
namespace Chip8.Console

/-- The options that take a value. -/
inductive ValueOption where
  /-- Instruction cycles per second. -/
  | rate
  /-- Seconds in which an erased pixel fades. -/
  | decay
  /-- Number of frames to stop after. -/
  | frames
  /-- Keys held down. -/
  | keys
  /-- Seed of the random bytes. -/
  | seed
  deriving DecidableEq, Repr

/-- The options without a value. -/
inductive Switch where
  /-- Run under the modern dialect. -/
  | modern
  /-- Draw every frame. -/
  | live
  /-- Do not wait between frames. -/
  | headless
  deriving DecidableEq, Repr

/-- What an option name stands for. -/
inductive Meaning where
  | value (option : ValueOption)
  | switch (option : Switch)
  | help
  | version
  deriving DecidableEq, Repr

/-- The long name of an option with a value. -/
def ValueOption.longName : ValueOption → String
  | rate => "cycles-per-sec"
  | decay => "pixel-decay-time"
  | frames => "frames"
  | keys => "keys"
  | seed => "seed"

/-- What a long name stands for. -/
def Meaning.ofLong? (name : String) : Option Meaning :=
  match name with
  | "cycles-per-sec" => some (.value .rate)
  | "pixel-decay-time" => some (.value .decay)
  | "frames" => some (.value .frames)
  | "keys" => some (.value .keys)
  | "seed" => some (.value .seed)
  | "modern-quirks" => some (.switch .modern)
  | "live" => some (.switch .live)
  | "headless" => some (.switch .headless)
  | "help" => some .help
  | "version" => some .version
  | _ => none

/-- What a letter stands for. -/
def Meaning.ofLetter? : Char → Option Meaning
  | 'c' => some (.value .rate)
  | 'd' => some (.value .decay)
  | 'n' => some (.value .frames)
  | 'k' => some (.value .keys)
  | 'h' => some .help
  | 'V' => some .version
  | _ => none

/-- Why a command line is not carried out. -/
inductive Refusal where
  | help
  | version
  | misuse
  deriving DecidableEq, Repr

/-- The options and words of a command line. -/
structure Arguments where
  image : Option String := none
  values : List (ValueOption × String) := []
  switches : List Switch := []
  /-- Options that were named without a value, or again. -/
  flawed : Bool := false
  deriving DecidableEq, Repr

namespace Arguments

/-- The value given for an option. -/
def value? (a : Arguments) (o : ValueOption) : Option String := a.values.lookup o

/-- Whether an option without a value was given. -/
def has (a : Arguments) (s : Switch) : Bool := a.switches.contains s

/-- Takes an option with its value. -/
def addValue (a : Arguments) (o : ValueOption) (value : String) : Arguments :=
  { a with values := a.values ++ [(o, value)], flawed := a.flawed || (a.value? o).isSome }

/-- Takes an option without a value. -/
def addSwitch (a : Arguments) (s : Switch) : Arguments :=
  { a with switches := a.switches ++ [s], flawed := a.flawed || a.has s }

/-- Takes a word. -/
def addWord (a : Arguments) (word : String) : Except Refusal Arguments :=
  match a.image with
  | none => .ok { a with image := some word }
  | some _ => .error .misuse

/-- Takes the words after `--`. -/
def addWords (a : Arguments) (words : List String) : Except Refusal Arguments :=
  words.foldlM addWord a

/-- Whether an argument is an option. -/
def isOption : List Char → Bool
  | '-' :: _ :: _ => true
  | _ => false

/-- A value that stands in the same argument as its option, without the equals signs before it. -/
def attachedValue (cs : List Char) : String := String.ofList (cs.dropWhile (· = '='))

/-- Takes an option argument, which is not `--`. An option that wants a value and has none in the same
argument is the second part of the answer. -/
def addOption (a : Arguments) (argument : List Char) : Except Refusal (Arguments × Option ValueOption) :=
  let body := argument.dropWhile (· = '-')
  let (meaning, attached) :=
    if argument.take 2 = ['-', '-'] then
      (Meaning.ofLong? (String.ofList (body.takeWhile (· ≠ '='))), body.dropWhile (· ≠ '='))
    else (body.head?.bind Meaning.ofLetter?, body.drop 1)
  match meaning with
  | none => .error .misuse
  | some .help => .error .help
  | some .version => .error .version
  | some (.switch s) => .ok (a.addSwitch s, none)
  | some (.value o) =>
    if attached = [] then .ok (a, some o) else .ok (a.addValue o (attachedValue attached), none)

/-- Reads arguments from left to right; `pending` is an option whose value may come next. -/
def read (a : Arguments) (pending : Option ValueOption) :
    List String → Except Refusal Arguments
  | [] => .ok { a with flawed := a.flawed || pending.isSome }
  | argument :: rest =>
    if isOption argument.toList then
      let a := { a with flawed := a.flawed || pending.isSome }
      if argument = "--" then a.addWords rest
      else match a.addOption argument.toList with
        | .error refusal => .error refusal
        | .ok (a, pending) => read a pending rest
    else match pending with
      | some o => read (a.addValue o argument) none rest
      | none => match a.addWord argument with
        | .error refusal => .error refusal
        | .ok a => read a none rest

/-- Understands a command line as options and words. -/
def parse (arguments : List String) : Except Refusal Arguments :=
  match read {} none arguments with
  | .error refusal => .error refusal
  | .ok a => if a.flawed || a.image.isNone then .error .misuse else .ok a

end Arguments

end Chip8.Console
