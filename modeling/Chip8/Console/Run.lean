import Chip8.Console.Help
import Chip8.Console.Session

/-!
# The console program

From a command line to what appears on the terminal. `Console.run` is the whole program for runs that do
not wait between frames; reading the program image is left to a function that is passed in.
-/
namespace Chip8.Console

/-- How the program ends. -/
inductive Outcome where
  | success
  /-- The command line makes no sense. -/
  | misuse
  /-- A failure, with its reasons. -/
  | failure (message : String) (causes : List String)
  | crash (cause : Crash)
  deriving DecidableEq, Repr

namespace Outcome

/-- The number that the program ends with. -/
def exitCode : Outcome → UInt8
  | success => 0
  | misuse => 1
  | failure .. => 1
  | crash _ => 101

/-- The last lines of the program. -/
def report : Outcome → List String
  | success => []
  | misuse => ["error: this command line makes no sense, try --help"]
  | failure message causes => s!"Error: {message}" :: causes.map fun cause => s!"  caused by: {cause}"
  | crash cause => [s!"panic: {cause.message}"]

end Outcome

/-- The outcome of a session that ended. -/
def Outcome.ofEnding : Session.Ending → Outcome
  | .complete => .success
  | .faulted f => .failure f.message []
  | .crashed c => .crash c

/-- Everything that appears on the terminal. -/
structure Transcript where
  /-- Standard output. -/
  output : String
  /-- Lines before the report of the outcome on standard error. -/
  log : List String
  outcome : Outcome
  deriving DecidableEq, Repr

/-- The lines on standard error. -/
def Transcript.errorLines (t : Transcript) : List String := t.log ++ t.outcome.report

/-- A run that the command line asks for. -/
structure Plan where
  options : Options
  filter : LogFilter
  /-- Lines about what the text of the filter got wrong. -/
  complaints : List String

/-- Understands a command line, or ends the program. -/
def plan (arguments : List String) (logSpec : Option String) : Except Transcript Plan :=
  let (filter, complaints) := LogFilter.parse (logSpec.getD "")
  match Arguments.parse arguments with
  | .error .help => .error ⟨helpText, complaints, .success⟩
  | .error .version => .error ⟨versionText, complaints, .success⟩
  | .error .misuse => .error ⟨"", complaints, .misuse⟩
  | .ok arguments => match Options.ofArguments arguments with
    | .error e => .error ⟨"", complaints, .failure e.message []⟩
    | .ok options => .ok ⟨options, filter, complaints⟩

namespace Plan

/-- What an image that cannot be read leads to. -/
def unreadable (p : Plan) (reason : String) : Transcript :=
  let path := p.options.image
  let log := p.filter.add #[] ⟨.error, consoleSource, s!"unable to read {path}: {reason}"⟩
  ⟨"", p.complaints ++ (log.map Record.line).toList, .failure s!"can't read rom {path}" [reason]⟩

/-- The session before its image is loaded. -/
def session (p : Plan) (entropy : RandomStream) : Session := .new p.options p.filter entropy

/-- What has been written when a session has ended. -/
def conclude (p : Plan) : Session × Session.Ending → Transcript
  | (s, ending) =>
    ⟨String.join s.output.toList, p.complaints ++ (s.log.map Record.line).toList, .ofEnding ending⟩

/-- Loads an image and plays it. -/
def play (p : Plan) (entropy : RandomStream) (image : List UInt8) : Transcript :=
  match Session.boot image (p.session entropy) with
  | .ok () s => p.conclude s.play
  | .error (.fault f) s => p.conclude (s, .faulted f)
  | .error (.crash c) s => p.conclude (s, .crashed c)

end Plan

/-- The program. `readImage` gives the bytes of a file or the reason why it cannot be read; `entropy` is
where random bytes come from without a seed. -/
def run (arguments : List String) (logSpec : Option String)
    (readImage : String → Except String (List UInt8)) (entropy : RandomStream) : Transcript :=
  match plan arguments logSpec with
  | .error transcript => transcript
  | .ok p => match readImage p.options.image with
    | .error reason => p.unreadable reason
    | .ok image => p.play entropy image

end Chip8.Console
