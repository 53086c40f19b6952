import Chip8.Pattern.Reader
import Chip8.Text.Numeral

/-!
# Single elements of a written pattern

An `Element` is what stands for one character or one place: a character, a dot, a condition, or an
escape after a backslash. Outside of brackets it is a pattern, inside of them a set of characters; what
it means depends on the flags in force.
-/
namespace Chip8.Pattern

/-- A set of characters with an escape of its own. -/
inductive CommonSet where
  | digits
  | blanks
  | words
  deriving DecidableEq, Repr

/-- The characters of the set with codes below 128. -/
def CommonSet.ascii : CommonSet → CharSet
  | digits => .digits
  | blanks => .blanks
  | words => .wordCharacters

/-- An element of a written pattern. -/
inductive Element where
  /-- A character; `byCode` if it is written as a code of two digits. -/
  | literal (c : Char) (byCode : Bool)
  | dot
  | look (condition : Look)
  | common (set : CommonSet) (negated : Bool)
  /-- The characters with a property. -/
  | property
  deriving DecidableEq, Repr

/-- Whether a character means something in patterns, so that a backslash before it takes that away. -/
def isMeta (c : Char) : Bool := c ∈ "\\.+*?()|[]\x7b\x7d^$#&-~".toList

/-- Whether a backslash before a character leaves it as it is. -/
def isEscapable (c : Char) : Bool :=
  isMeta c || (c.toNat < 128 && !c.isAlphanum && c != '<' && c != '>')

namespace Reader

/-- The characters up to the first that fails a test, without those skipped. -/
def takeWhile (test : Char → Bool) : Reader (List Char) := do
  let taken ← loop (fun taken => do
    match ← current with
    | some c =>
      if test c then
        discard takeAndSkip
        return some (c :: taken)
      else return none
    | none => return none) []
  return taken.reverse

/-- The character whose code is written in hexadecimal digits. -/
def characterOfCode? (digits : List Char) : Option Char :=
  match Text.digitsValue? 16 0 digits with
  | some n => if n.isValidChar then some (Char.ofNat n) else none
  | none => none

/-- Whether a character is a hexadecimal digit. -/
def isHexDigit (c : Char) : Bool := (Text.digitValue? 16 c).isSome

/-- Reads the digits of a code of a fixed length, of which the first comes next. -/
def readDigits (count : Nat) (digits : List Char) : Reader (List Char) :=
  match count with
  | 0 => return digits.reverse
  | count + 1 => do
    match ← current with
    | none => refuse .escapeUnfinished (.emptyAt (← here))
    | some c =>
      if !isHexDigit c then refuse .codeDigitInvalid (← currentSpan)
      discard takeAndSkip
      readDigits count (c :: digits)

/-- Reads a code in braces, of which the first comes next. -/
def readBracedCode : Reader Char := do
  let brace ← here
  let start := (← currentSpan).stop
  discard takeAndSkip
  let digits ← takeWhile isHexDigit
  match ← current with
  | none => refuse .escapeUnfinished (← spanFrom brace)
  | some c =>
    if c ≠ '}' then refuse .codeDigitInvalid (← currentSpan)
    let stop ← here
    discard takeAndSkip
    if digits = [] then refuse .codeEmpty (← spanFrom brace)
    match characterOfCode? digits with
    | some c => return c
    | none => refuse .codeInvalid ⟨start, stop⟩

/-- Reads a code. The letter before it says how many digits it has without braces. -/
def readCode (letter : Char) : Reader Element := do
  match ← takeAndSkip with
  | none => refuse .escapeUnfinished (.emptyAt (← here))
  | some '{' => return .literal (← readBracedCode) false
  | some _ =>
    let start ← here
    let count := if letter = 'x' then 2 else if letter = 'u' then 4 else 8
    match characterOfCode? (← readDigits count []) with
    | some c => return .literal c (letter = 'x')
    | none => refuse .codeInvalid (← spanFrom start)

/-- Reads the name of a property, of which the letter before it comes next. -/
def readProperty : Reader Element := do
  match ← takeAndSkip with
  | none => refuse .escapeUnfinished (.emptyAt (← here))
  | some '{' =>
    discard takeAndSkip
    discard (takeWhile (· ≠ '}'))
    if (← current).isNone then refuse .escapeUnfinished (.emptyAt (← here))
    take
    return .property
  | some '\\' => refuse .propertyInvalid (← currentSpan)
  | some _ =>
    discard takeAndSkip
    return .property

/-- The condition on words with the flags in force. -/
def wordLook (edge : WordEdge) : Reader Element :=
  return .look (if (← get).flags.scripts then .scriptWord else .word edge)

/-- Reads what may follow the escape of an edge of a word: a kind of edge in braces. What stands in the
braces is left to be read as a number if it cannot be a kind of edge. -/
def readWordEdge (start : Place) : Reader WordEdge := do
  if (← current) ≠ some '{' then return .change
  let before ← get
  let isOfName := fun (c : Char) => c.isAlpha || c == '-'
  match ← takeAndSkip with
  | none => refuse .wordEdgeUnfinished (← spanFrom start)
  | some c =>
    if !isOfName c then
      set before
      return .change
    let nameStart ← here
    let name ← takeWhile isOfName
    if (← current) ≠ some '}' then refuse .wordEdgeUnclosed (← spanFrom before.place)
    let nameSpan ← spanFrom nameStart
    take
    match String.ofList name with
    | "start" => return .start
    | "end" => return .stop
    | "start-half" => return .noneBefore
    | "end-half" => return .noneAfter
    | _ => refuse .wordEdgeUnknown nameSpan

/-- The character of an escape for a control character. -/
def control? : Char → Option Char
  | 'a' => some '\x07'
  | 'f' => some '\x0c'
  | 't' => some '\t'
  | 'n' => some '\n'
  | 'r' => some '\r'
  | 'v' => some '\x0b'
  | _ => none

/-- Reads an escape whose one letter has been taken. -/
def readLetter (start : Place) (c : Char) : Reader Element := do
  if isEscapable c then return .literal c false
  match control? c with
  | some control => return .literal control false
  | none =>
    match c with
    | 'A' => return .look .textStart
    | 'z' => return .look .textEnd
    | 'b' => wordLook (← readWordEdge start)
    | 'B' => wordLook .noChange
    | '<' => wordLook .start
    | '>' => wordLook .stop
    | _ => refuse .escapeUnknown (← spanFrom start)

/-- Reads a set of characters with an escape of its own, of which the letter comes next. -/
def readCommon (set : CommonSet) (negated : Bool) : Reader Element := do
  take
  return .common set negated

/-- Reads an escape, of which the backslash comes next. -/
def readEscape : Reader Element := do
  let start ← here
  take
  match ← current with
  | none => refuse .escapeUnfinished (← spanFrom start)
  | some 'd' => readCommon .digits false
  | some 'D' => readCommon .digits true
  | some 's' => readCommon .blanks false
  | some 'S' => readCommon .blanks true
  | some 'w' => readCommon .words false
  | some 'W' => readCommon .words true
  | some 'p' => readProperty
  | some 'P' => readProperty
  | some c =>
    if c = 'x' ∨ c = 'u' ∨ c = 'U' then readCode c
    else
      take
      if Text.isDecimalDigit c then refuse .backReference (← spanFrom start)
      readLetter start c

/-- Reads an element outside of brackets, of which `c` comes next. -/
def readElement (c : Char) : Reader Element := do
  if c = '\\' then return ← readEscape
  take
  let flags := (← get).flags
  match c with
  | '.' => return .dot
  | '^' => return .look (if flags.lines then .lineStart flags.returns else .textStart)
  | '$' => return .look (if flags.lines then .lineEnd flags.returns else .textEnd)
  | _ => return .literal c false

end Reader

namespace Element

/-- The characters that the dot stands for. -/
def dotSet (flags : Flags) : CharSet :=
  if flags.dotTakesAll then .every
  else if flags.returns then CharSet.every.subtract (.ofText "\r\n")
  else CharSet.every.subtract (.single '\n')

/-- The set of an element that stands for several characters by a name. -/
def namedSet (span : Span) (set : CommonSet) (negated : Bool) : Reader CharSet := do
  if (← get).flags.scripts then Reader.noteDoubt .scriptClassMissing span
  else if negated then Reader.noteDoubt .notText span
  return set.ascii

/-- The set of the characters with a property. No property is known. -/
def propertySet (span : Span) : Reader CharSet := do
  if (← get).flags.scripts then Reader.noteDoubt .propertyUnknown span
  else Reader.noteDoubt .scriptNotAllowed span
  return .empty

/-- Notes a byte that is no character, which a code stands for where characters are bytes. -/
def noteByte (span : Span) (c : Char) (byCode : Bool) : Reader Unit := do
  if !(← get).flags.scripts && byCode && 128 ≤ c.toNat then Reader.noteDoubt .notText span

/-- The set of a character outside of brackets. -/
def literalSet (span : Span) (c : Char) (byCode : Bool) : Reader CharSet := do
  let flags := (← get).flags
  noteByte span c byCode
  if !flags.ignoreCase then return .single c
  if flags.scripts then Reader.noteDoubt .scriptCaseMissing span
  return (CharSet.single c).withBothCases

/-- The element as a pattern. -/
def pattern (span : Span) : Element → Reader Pattern
  | literal c byCode => return .one (← literalSet span c byCode)
  | dot => do
    let flags := (← get).flags
    if !flags.scripts then Reader.noteDoubt .notText span
    return .one (dotSet flags)
  | look condition => return .look condition
  | common set negated => return .one (← namedSet span set negated)
  | property => return .one (← propertySet span)

/-- The character of an element that is an end of a range. -/
def rangeEnd (span : Span) : Element → Reader (Char × Bool)
  | literal c byCode => return (c, byCode)
  | _ => Reader.refuse .setRangeEndInvalid span

/-- Notes a character that cannot belong to a set of bytes. -/
def noteMember (span : Span) (c : Char) (byCode : Bool) : Reader Unit := do
  noteByte span c byCode
  if !(← get).flags.scripts && !byCode && 128 ≤ c.toNat then Reader.noteDoubt .scriptNotAllowed span

/-- The element as a set in brackets. -/
def members (span : Span) : Element → Reader CharSet
  | literal c byCode => do
    noteMember span c byCode
    return .single c
  | common set negated => namedSet span set negated
  | property => propertySet span
  | _ => Reader.refuse .setEscapeInvalid span

end Element

end Chip8.Pattern
