import Chip8.Pattern.Escape

/-!
# Groups and repetitions

How a group opens, which may give it a name or change flags, and how often an item is repeated.
-/
namespace Chip8.Pattern

/-- The flags with the one of a letter set, if a flag has that letter. -/
def Flags.set? (flags : Flags) (letter : Char) (on : Bool) : Option Flags :=
  match letter with
  | 'i' => some { flags with ignoreCase := on }
  | 'm' => some { flags with lines := on }
  | 's' => some { flags with dotTakesAll := on }
  | 'R' => some { flags with returns := on }
  | 'u' => some { flags with scripts := on }
  | 'x' => some { flags with spaced := on }
  | 'U' => some { flags with lazy := on }
  | _ => none

/-- The part of a list of flags that has been read. -/
structure FlagDraft where
  flags : Flags
  /-- What has been written, last first. -/
  written : List (Char × Span)

namespace FlagDraft

/-- Whether a minus has been written, which turns the flags behind it off. -/
def negative (d : FlagDraft) : Bool := d.written.any (·.1 = '-')

/-- Where a character has been written. -/
def find? (d : FlagDraft) (c : Char) : Option Span := (d.written.find? (·.1 = c)).map Prod.snd

end FlagDraft

/-- What an opening parenthesis begins. -/
inductive Opening where
  /-- A group, with the flags inside of it. -/
  | group (flags : Flags)
  /-- Nothing; it changes the flags from here on. -/
  | setting (flags : Flags)

namespace Opening
open Chip8.Pattern.Reader

/-- Reads a flag or the minus between flags. -/
def readFlag (d : FlagDraft) : Reader (Option FlagDraft) := do
  match ← current with
  | none => return none
  | some c =>
    if c = ':' ∨ c = ')' then return none
    let span ← currentSpan
    match if c = '-' then some d.flags else d.flags.set? c (!d.negative) with
    | none => refuse .flagUnknown span
    | some flags =>
      match d.find? c with
      | some earlier =>
        throw ⟨if c = '-' then .minusRepeated else .flagRepeated, span, some earlier⟩
      | none =>
        take
        if (← current).isNone then refuse .flagsUnfinished (.emptyAt (← here))
        return some ⟨flags, (c, span) :: d.written⟩

/-- Reads flags up to a colon or a closing parenthesis. -/
def readFlags : Reader FlagDraft := do
  let d ← loop readFlag ⟨(← get).flags, []⟩
  match d.written with
  | ('-', span) :: _ => refuse .flagMissingAfterMinus span
  | _ => return d

/-- Whether a character may stand in a group name. Every character beyond code 127 may. -/
def isOfName (first : Bool) (c : Char) : Bool :=
  c.isAlpha || c == '_' || 128 ≤ c.toNat ||
    (!first && (c.isDigit || c == '.' || c == '[' || c == ']'))

/-- Reads a character of a group name. -/
def readNameCharacter (name : List Char) : Reader (Option (List Char)) := do
  match ← current with
  | none => return none
  | some c =>
    if c = '>' then return none
    if !isOfName name.isEmpty c then refuse .nameInvalid (← currentSpan)
    take
    return some (c :: name)

/-- Reads a group name and the bracket that closes it. -/
def readName : Reader Unit := do
  let start ← here
  let name ← loop readNameCharacter []
  let span ← spanFrom start
  if (← current).isNone then refuse .nameUnclosed (.emptyAt (← here))
  take
  if name = [] then refuse .nameEmpty (.emptyAt start)
  let name := String.ofList name.reverse
  match (← get).names.lookup name with
  | some earlier => throw ⟨.nameRepeated, span, some earlier⟩
  | none => modify fun r => { r with names := (name, span) :: r.names }

/-- Takes one of some texts, the first that comes next. -/
def takeAny : List String → Reader Bool
  | [] => return false
  | text :: texts => do
    if ← takeText text then return true
    takeAny texts

/-- Reads an opening parenthesis and what belongs to it. -/
def read : Reader Opening := do
  let start ← here
  let parenthesis ← currentSpan
  discard takeAndSkip
  if ← takeAny ["?=", "?!", "?<=", "?<!"] then refuse .lookAround (← spanFrom start)
  let mark ← here
  if ← takeAny ["?P<", "?<"] then
    readName
    return .group (← get).flags
  if !(← takeText "?") then return .group (← get).flags
  if (← current).isNone then refuse .groupUnclosed parenthesis
  let d ← readFlags
  let ends := (← current) = some ')'
  take
  if !ends then return .group d.flags
  if d.written = [] then refuse .nothingToRepeat (.emptyAt mark)
  return .setting d.flags

end Opening

/-- How often an item is repeated; without a bound, if `most` is missing. -/
structure Repetition where
  least : Nat
  most : Option Nat
  deriving DecidableEq, Repr

namespace Repetition
open Chip8.Pattern.Reader

/-- Counts stay below this number. -/
def countLimit : Nat := 4294967296

/-- Reads a count, which may have blank characters around it. An objection to it is left to the reader's
caller. -/
def readCount : Reader (Except Objection Nat) := do
  discard (takeWhile Text.isBlank)
  let start ← here
  let digits ← takeWhile Text.isDecimalDigit
  let span ← spanFrom start
  discard (takeWhile Text.isBlank)
  if digits = [] then return .error ⟨.countMissing, span, none⟩
  let count := Text.decimalValue digits
  return if count < countLimit then .ok count else .error ⟨.countTooLarge, span, none⟩

/-- Reads on behind the first count. -/
def readSecond (start : Place) (least : Except Objection Nat) : Reader Repetition := do
  match ← current with
  | none => refuse .countUnclosed (← spanFrom start)
  | some ',' =>
    match ← takeAndSkip with
    | none => refuse .countUnclosed (← spanFrom start)
    | some '}' => return ⟨← ofExcept least, none⟩
    | some _ =>
      let least ← ofExcept least
      let most ← ofExcept (← readCount)
      return ⟨least, some most⟩
  | some _ =>
    let count ← ofExcept least
    return ⟨count, some count⟩

/-- Whether the least count is at most the other one. -/
def isOrdered (r : Repetition) : Bool := r.most.all (r.least ≤ ·)

/-- Takes the question mark of a repetition that prefers few items, if it comes next. -/
def takeLazy : Reader Unit := discard (takeText "?")

/-- Reads counts in braces, of which the first comes next. -/
def readCounts : Reader Repetition := do
  let start ← here
  if (← takeAndSkip).isNone then refuse .countUnclosed (← spanFrom start)
  let least ← readCount
  let counts ← readSecond start least
  if (← current) ≠ some '}' then refuse .countUnclosed (← spanFrom start)
  discard takeAndSkip
  takeLazy
  if !counts.isOrdered then refuse .countsReversed (← spanFrom start)
  return counts

/-- Reads what says how often an item is repeated, of which `c` comes next. -/
def read (c : Char) : Reader Repetition := do
  if c = '\x7b' then return ← readCounts
  take
  takeLazy
  match c with
  | '?' => return ⟨0, some 1⟩
  | '*' => return ⟨0, none⟩
  | _ => return ⟨1, none⟩

end Repetition

end Chip8.Pattern
