import Chip8.Console.Arguments

/-!
# Help

What the program tells of its own command line: the names of each option, what its value is called and what it is
for. The text is set in blocks of two columns; what does not fit beside a wide left column goes to a line of its own.

* `Meaning.entry`: what is told of an option.
* `mem_listed`, `mem_listedFlags_iff`, `mem_listedOptions_iff`: no option is left out, and each is in the list for
  its kind.
* `ofLong?_eq_some_iff`, `ofLetter?_eq_some_iff`: an option has the names that are told of it, and no others.
* `helpText`, `versionText`: the whole texts.
-/
namespace Chip8.Console

/-- What the help tells of an option. -/
structure HelpEntry where
  letter : Option Char
  longName : String
  /-- What the value is called, if there is one. -/
  value : Option String
  purpose : String

/-- What the help tells of each option. -/
def Meaning.entry : Meaning → HelpEntry
  | value .rate => ⟨some 'c', ValueOption.rate.longName, some "cycles_per_second",
    "How many Chip8 cycles should be executed per second. Values between 500-1000 should be fine."⟩
  | value .decay => ⟨some 'd', ValueOption.decay.longName, some "pixel_decay_time",
    "How many seconds takes for pixel from lit to non-lit"⟩
  | value .frames => ⟨some 'n', ValueOption.frames.longName, some "frames", "Stop after this many 60 Hz frames"⟩
  | value .keys => ⟨some 'k', ValueOption.keys.longName, some "keys",
    "Comma separated hex keys held down for the whole run, e.g. 5,a"⟩
  | value .seed => ⟨none, ValueOption.seed.longName, some "seed", "Seed for the random number generator"⟩
  | switch .modern => ⟨none, "modern-quirks", none, "Shift Vx in place and keep I unchanged on Fx55/Fx65"⟩
  | switch .live => ⟨none, "live", none, "Redraw the screen every frame"⟩
  | switch .headless => ⟨none, "headless", none, "Don't wait between frames, simulate 16ms per frame instead"⟩
  | help => ⟨some 'h', "help", none, "Prints help information"⟩
  | version => ⟨some 'V', "version", none, "Prints version information"⟩

/-- The options without a value, as the help lists them. -/
def listedFlags : List Meaning := [.help, .switch .headless, .switch .live, .switch .modern, .version]

/-- The options with a value, as the help lists them. -/
def listedOptions : List Meaning := [.value .rate, .value .frames, .value .keys, .value .decay, .value .seed]

/-! ## What is told is so -/

/-- No option is left out, so what is true of the listed ones is true of all. -/
theorem mem_listed (m : Meaning) : m ∈ listedFlags ++ listedOptions := by
  cases m with
  | value o => cases o <;> decide
  | switch s => cases s <;> decide
  | help => decide
  | version => decide

theorem mem_listedOptions_iff {m : Meaning} : m ∈ listedOptions ↔ m.entry.value ≠ none := by
  have hlisted : ∀ m ∈ listedFlags ++ listedOptions, m ∈ listedOptions ↔ m.entry.value ≠ none := by decide
  exact hlisted m (mem_listed m)

theorem mem_listedFlags_iff {m : Meaning} : m ∈ listedFlags ↔ m.entry.value = none := by
  have hlisted : ∀ m ∈ listedFlags ++ listedOptions, m ∈ listedFlags ↔ m.entry.value = none := by decide
  exact hlisted m (mem_listed m)

theorem ofLong?_eq_some_iff {name : String} {m : Meaning} : Meaning.ofLong? name = some m ↔ m.entry.longName = name := by
  have hlisted : ∀ m ∈ listedFlags ++ listedOptions, Meaning.ofLong? m.entry.longName = some m := by decide
  constructor
  · intro h
    unfold Meaning.ofLong? at h
    split at h <;> cases h <;> rfl
  · rintro rfl
    exact hlisted m (mem_listed m)

theorem ofLetter?_eq_some_iff {c : Char} {m : Meaning} : Meaning.ofLetter? c = some m ↔ m.entry.letter = some c := by
  have hlisted : ∀ m ∈ listedFlags ++ listedOptions,
      m.entry.letter.bind Meaning.ofLetter? = m.entry.letter.map fun _ => m := by decide
  constructor
  · intro h
    unfold Meaning.ofLetter? at h
    split at h <;> cases h <;> rfl
  · intro h
    have hm := hlisted m (mem_listed m)
    rw [h] at hm
    exact hm

/-! ## The text -/

/-- Characters in a line. -/
def lineWidth : Nat := 120

namespace HelpEntry

/-- The long name, and what the value is called. -/
def title (e : HelpEntry) : String :=
  match e.value with
  | none => "--" ++ e.longName
  | some value => "--" ++ e.longName ++ " <" ++ value ++ ">"

/-- The left column, where the letter has its place before the title. -/
def left (e : HelpEntry) : String :=
  match e.letter with
  | none => "        " ++ e.title
  | some c => "    -" ++ c.toString ++ ", " ++ e.title

/-- Whether the purpose has a line of its own: the left column, for titles up to `width`, takes more than two fifths
of the line, and what is left is too short. -/
def apart (e : HelpEntry) (width : Nat) : Bool :=
  2 * lineWidth < 5 * (width + 12) && lineWidth - (width + 12) < e.purpose.length

/-- The lines about one option. -/
def lines (e : HelpEntry) (width : Nat) : List String :=
  if e.apart width then [e.left, "            " ++ e.purpose, ""]
  else [e.left ++ String.ofList (List.replicate (width + 4 - e.title.length) ' ') ++ e.purpose]

end HelpEntry

/-- The lines about some options. -/
def helpBlock (options : List Meaning) : List String :=
  let entries := options.map Meaning.entry
  let width := (entries.map fun e => e.title.length).foldl max 0
  entries.flatMap (·.lines width)

/-- The version text. There is no version number. -/
def versionText : String := "chip8-term \n"

/-- The help text. -/
def helpText : String :=
  versionText ++ "\n".intercalate
    (["Runs a CHIP-8 program and draws its screen in the terminal", "",
      "USAGE:", "    chip8-term [FLAGS] [OPTIONS] <ROM_FILE>", "", "FLAGS:"] ++
      helpBlock listedFlags ++ ["", "OPTIONS:"] ++ helpBlock listedOptions ++
      ["", "ARGS:", "    <ROM_FILE>    rom file to load", ""])

end Chip8.Console
