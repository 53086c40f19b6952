import Chip8.Text.Lines

/-!
# Objections to written patterns

Why a written pattern is refused. Most reasons are an `Objection`: a `Flaw` at a span of the text. Its
message shows the text with carets under the span.
-/
namespace Chip8.Pattern

/-- A place in a written pattern. Lines and columns count from one. -/
structure Place where
  line : Nat
  column : Nat
  deriving DecidableEq, Repr

/-- The place behind a character. -/
def Place.after (p : Place) (c : Char) : Place :=
  if c = '\n' then ⟨p.line + 1, 1⟩ else ⟨p.line, p.column + 1⟩

/-- A part of a written pattern. -/
structure Span where
  start : Place
  stop : Place
  deriving DecidableEq, Repr

namespace Span

/-- The empty part at a place. -/
def emptyAt (p : Place) : Span := ⟨p, p⟩

/-- Whether the part lies on one line. -/
def isOneLine (s : Span) : Bool := s.start.line = s.stop.line

/-- Whether the part comes before another one of the same line. -/
def comesBefore (s t : Span) : Bool :=
  s.start.column < t.start.column || (s.start.column = t.start.column && s.stop.column ≤ t.stop.column)

/-- Number of carets under the part: one for each of its characters, and one if it is empty. -/
def carets (s : Span) : Nat := max 1 (s.stop.column - s.start.column)

end Span

/-- What is wrong with a part of a written pattern. -/
inductive Flaw where
  | setEscapeInvalid
  | setRangeReversed
  | setRangeEndInvalid
  | setUnclosed
  | countTooLarge
  | codeEmpty
  | codeInvalid
  | codeDigitInvalid
  | escapeUnfinished
  | escapeUnknown
  | flagMissingAfterMinus
  | flagRepeated
  | minusRepeated
  | flagsUnfinished
  | flagUnknown
  | nameRepeated
  | nameEmpty
  | nameInvalid
  | nameUnclosed
  | groupUnclosed
  | groupUnopened
  | countsReversed
  | countMissing
  | countUnclosed
  | nothingToRepeat
  | wordEdgeUnclosed
  | wordEdgeUnknown
  | wordEdgeUnfinished
  | propertyInvalid
  | backReference
  | lookAround
  /-- A character of any script where there are single bytes only. -/
  | scriptNotAllowed
  /-- Bytes that are not text could be found. -/
  | notText
  | propertyUnknown
  /-- Digits, blanks and words of every script are not known. -/
  | scriptClassMissing
  /-- The cases of every script are not known. -/
  | scriptCaseMissing
  deriving DecidableEq, Repr

/-- What is wrong. -/
def Flaw.message : Flaw → String
  | setEscapeInvalid => "invalid escape sequence found in character class"
  | setRangeReversed => "invalid character class range, the start must be <= the end"
  | setRangeEndInvalid => "invalid range boundary, must be a literal"
  | setUnclosed => "unclosed character class"
  | countTooLarge => "decimal literal invalid"
  | codeEmpty => "hexadecimal literal empty"
  | codeInvalid => "hexadecimal literal is not a Unicode scalar value"
  | codeDigitInvalid => "invalid hexadecimal digit"
  | escapeUnfinished => "incomplete escape sequence, reached end of pattern prematurely"
  | escapeUnknown => "unrecognized escape sequence"
  | flagMissingAfterMinus => "dangling flag negation operator"
  | flagRepeated => "duplicate flag"
  | minusRepeated => "flag negation operator repeated"
  | flagsUnfinished => "expected flag but got end of regex"
  | flagUnknown => "unrecognized flag"
  | nameRepeated => "duplicate capture group name"
  | nameEmpty => "empty capture group name"
  | nameInvalid => "invalid capture group character"
  | nameUnclosed => "unclosed capture group name"
  | groupUnclosed => "unclosed group"
  | groupUnopened => "unopened group"
  | countsReversed => "invalid repetition count range, the start must be <= the end"
  | countMissing => "repetition quantifier expects a valid decimal"
  | countUnclosed => "unclosed counted repetition"
  | nothingToRepeat => "repetition operator missing expression"
  | wordEdgeUnclosed =>
    "special word boundary assertion is either unclosed or contains an invalid character"
  | wordEdgeUnknown =>
    "unrecognized special word boundary assertion, valid choices are: start, end, start-half or end-half"
  | wordEdgeUnfinished =>
    "found either the beginning of a special word boundary or a bounded repetition on a \\b with an opening brace, but no closing brace"
  | propertyInvalid => "invalid Unicode character class"
  | backReference => "backreferences are not supported"
  | lookAround => "look-around, including look-ahead and look-behind, is not supported"
  | scriptNotAllowed => "Unicode not allowed here"
  | notText => "pattern can match invalid UTF-8"
  | propertyUnknown => "Unicode property not found"
  | scriptClassMissing =>
    "Unicode-aware Perl class not found (make sure the unicode-perl feature is enabled)"
  | scriptCaseMissing =>
    "Unicode-aware case insensitivity matching is not available (make sure the unicode-case feature is enabled)"

/-- A flaw and where it is. -/
structure Objection where
  flaw : Flaw
  span : Span
  /-- An earlier part that the flaw is about. -/
  earlier : Option Span
  deriving DecidableEq, Repr

namespace Objection

/-- Both parts, in the order of the text if they share a line. -/
def spans (o : Objection) : List Span :=
  match o.earlier with
  | none => [o.span]
  | some e => if e.comesBefore o.span then [e, o.span] else [o.span, e]

/-- Carets under some parts of a line, in order. -/
def caretLine (spans : List Span) : String :=
  spans.foldl (fun line s => (line.pushn ' ' (s.start.column - 1 - line.length)).pushn '^' s.carets) ""

/-- The lines of the text after line `number`, each indented or numbered, with their carets. `width` is
that of the line numbers, and zero if there are none. -/
def annotated (spans : List Span) (width number : Nat) : List String → List String
  | [] => []
  | line :: rest =>
    let count := toString (number + 1)
    let front := if width = 0 then "    " else "".pushn ' ' (width - count.length) ++ count ++ ": "
    let marked := spans.filter fun s => s.isOneLine && s.start.line = number + 1
    let carets := if marked = [] then [] else ["".pushn ' ' front.length ++ caretLine marked]
    (front ++ line) :: carets ++ annotated spans width (number + 1) rest

/-- Where a part begins and ends that takes several lines. -/
def lineNote (s : Span) : String :=
  s!"on line {s.start.line} (column {s.start.column}) through line {s.stop.line} (column {s.stop.column - 1})"

/-- The message about a pattern. One of several lines is shown with line numbers between rulers. -/
def message (o : Objection) (text : String) : String :=
  let lines := Text.lines text
  let reason := s!"error: {o.flaw.message}"
  if '\n' ∈ text.toList then
    let count := if text.toList.getLast? = some '\n' then lines.length + 1 else lines.length
    let width := if count ≤ 1 then 0 else (toString count).length
    let ruler := "".pushn '~' 79
    let notes := (o.spans.filter fun s => !s.isOneLine).map lineNote
    "\n".intercalate
      ("regex parse error:" :: ruler :: annotated o.spans width 0 lines ++ ruler :: notes ++ [reason])
  else "\n".intercalate ("regex parse error:" :: annotated o.spans 0 0 lines ++ [reason])

end Objection

end Chip8.Pattern
