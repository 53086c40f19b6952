import Chip8.Console.Run

/-!
# The command

The console program on a real terminal: it reads the file, takes its random bytes from the system,
prints after each frame what the frame wrote, and waits between frames unless it is told not to.
-/
namespace Chip8.Console

/-- A reason of the system with its number, which some of the system's functions give negated. -/
def systemReason (code : UInt32) (details : String) : String :=
  let number := if code.toNat < 0x80000000 then code.toNat else 0x100000000 - code.toNat
  s!"{details.capitalize} (os error {number})"

/-- Why a file could not be read. -/
def readFailure : IO.Error → String
  | .noFileOrDirectory _ code details
  | .inappropriateType _ code details
  | .permissionDenied _ code details
  | .invalidArgument _ code details => systemReason code details
  | e => toString e

/-- The bytes of a file, or why it could not be read. -/
def readImage (path : String) : IO (Except String (List UInt8)) := do
  try
    return .ok (← IO.FS.readBinFile path).toList
  catch e =>
    return .error (readFailure e)

/-- A random stream from the system's entropy. -/
def systemEntropy : IO RandomStream := do
  let bytes ← IO.getRandomBytes 8
  return .ofSeed (bytes.toList.foldl (fun seed b => seed * 256 + b.toUInt64) 0)

/-- Prints what a session has written, and takes it away. -/
def printWritten (s : Session) : IO Session := do
  let out ← IO.getStdout
  s.output.forM out.putStr
  out.flush
  s.log.forM fun r => IO.eprintln r.line
  return { s with output := #[], log := #[] }

/-- Runs frames until the end; `last` is when the frame before this one began. -/
partial def playFrames (s : Session) (last : Nat) : IO (Session × Session.Ending) := do
  let now ← IO.monoNanosNow
  let time := if s.options.headless then frameTime else now - last
  match Session.frame time s with
  | .ok .again s =>
    let s ← printWritten s
    let spent := (← IO.monoNanosNow) - now
    unless s.options.headless do
      IO.sleep (UInt32.ofNat ((frameTime - spent) / 1000000))
    playFrames s now
  | result => return Session.finish result

/-- Prints a transcript and answers the exit code. -/
def printTranscript (t : Transcript) : IO UInt32 := do
  let out ← IO.getStdout
  out.putStr t.output
  out.flush
  t.errorLines.forM fun line => IO.eprintln line
  return t.outcome.exitCode.toUInt32

/-- Loads an image and plays it frame by frame. -/
def playOnTerminal (p : Plan) (image : List UInt8) : IO UInt32 := do
  p.complaints.forM fun line => IO.eprintln line
  let p := { p with complaints := [] }
  match Session.boot image (p.session (← systemEntropy)) with
  | .ok () s =>
    let s ← printWritten s
    printTranscript (p.conclude (← playFrames s (← IO.monoNanosNow)))
  | .error (.fault f) s => printTranscript (p.conclude (s, .faulted f))
  | .error (.crash c) s => printTranscript (p.conclude (s, .crashed c))

end Chip8.Console

/-- Runs a CHIP-8 program in the terminal. -/
def main (arguments : List String) : IO UInt32 := do
  match Chip8.Console.plan arguments (← IO.getEnv "RUST_LOG") with
  | .error transcript => Chip8.Console.printTranscript transcript
  | .ok p => match ← Chip8.Console.readImage p.options.image with
    | .error reason => Chip8.Console.printTranscript (p.unreadable reason)
    | .ok image => Chip8.Console.playOnTerminal p image
