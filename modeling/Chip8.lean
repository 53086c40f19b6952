import Chip8.Afterglow
import Chip8.Console.Arguments
import Chip8.Console.Help
import Chip8.Console.Log
import Chip8.Console.Options
import Chip8.Console.Run
import Chip8.Console.Session
import Chip8.Fault
import Chip8.FrameLoop
import Chip8.Instruction.Assembly
import Chip8.Instruction.Basic
import Chip8.Instruction.Encoding
import Chip8.Journal
import Chip8.Machine.CallStack
import Chip8.Machine.Countdown
import Chip8.Machine.Execute
import Chip8.Machine.Keypad
import Chip8.Machine.Layout
import Chip8.Machine.Memory
import Chip8.Machine.Registers
import Chip8.Machine.State
import Chip8.Machine.Step
import Chip8.Main
import Chip8.Pacing
import Chip8.Pattern.Basic
import Chip8.Pattern.Bracket
import Chip8.Pattern.CharSet
import Chip8.Pattern.Escape
import Chip8.Pattern.Group
import Chip8.Pattern.Objection
import Chip8.Pattern.Parse
import Chip8.Pattern.Reader
import Chip8.Proofs.Arithmetic
import Chip8.Proofs.Calls
import Chip8.Proofs.Conservation
import Chip8.Proofs.Executed
import Chip8.Proofs.Execution
import Chip8.Proofs.Faults
import Chip8.Proofs.Footprint
import Chip8.Proofs.Frames
import Chip8.Proofs.Guarded
import Chip8.Proofs.Halting
import Chip8.Proofs.Headless
import Chip8.Proofs.Interference
import Chip8.Proofs.LitCount
import Chip8.Proofs.Opcodes
import Chip8.Proofs.Overlay
import Chip8.Proofs.Playing
import Chip8.Proofs.RandomDraws
import Chip8.Proofs.Reachable
import Chip8.Proofs.RoundTrip
import Chip8.Proofs.Schedule
import Chip8.Proofs.Sprites
import Chip8.Random.ChaCha
import Chip8.Random.Stream
import Chip8.Screen
import Chip8.Text.Blank
import Chip8.Text.Hex
import Chip8.Text.Lines
import Chip8.Text.Numeral
import Chip8.Proofs.Ticking
import Chip8.Proofs.Diagnostics
import Chip8.Proofs.LiveFrames
import Chip8.Proofs.LiveOutput
import Chip8.Proofs.Redrawing
import Chip8.Proofs.Ranges
import Chip8.Proofs.Loading
import Chip8.Proofs.Transfer
import Chip8.Proofs.DigitDisplay
import Chip8.Proofs.Skips
import Chip8.Proofs.KeyWait
import Chip8.Proofs.KeepingUp
import Chip8.Proofs.FrameLimit
import Chip8.Proofs.Digits
import Chip8.Proofs.Disassembly
import Chip8.Proofs.KeyList
import Chip8.Proofs.Fading
import Chip8.Proofs.Views
