import Chip8.Pattern.Escape

/-!
# Sets in brackets

A set in brackets is a union of characters, ranges, named sets and further sets in brackets, or of two
or more such unions with operators between them. All operators bind alike, from left to right.
-/
namespace Chip8.Pattern

/-- What stands between two unions. -/
inductive SetOperator where
  /-- Characters of both. -/
  | intersection
  /-- Characters of the first only. -/
  | subtraction
  /-- Characters of exactly one. -/
  | difference
  deriving DecidableEq, Repr

/-- The set that an operator makes. -/
def SetOperator.apply : SetOperator → CharSet → CharSet → CharSet
  | intersection => .intersect
  | subtraction => .subtract
  | difference => .difference

/-- A set and the part of the text that describes it. -/
structure Operand where
  set : CharSet
  span : Span

/-- The part of a union that has been read. -/
structure UnionDraft where
  set : CharSet
  start : Place
  /-- The part of the text from the first member to the last. -/
  span : Option Span

namespace UnionDraft

/-- Nothing yet. -/
def blank (start : Place) : UnionDraft := ⟨.empty, start, none⟩

/-- Adds members. -/
def add (u : UnionDraft) (members : CharSet) (span : Span) : UnionDraft :=
  let start := (u.span.map Span.start).getD span.start
  { u with set := u.set.union members, span := some ⟨start, span.stop⟩ }

/-- The whole union. -/
def operand (u : UnionDraft) : Operand := ⟨u.set, u.span.getD (.emptyAt u.start)⟩

end UnionDraft

/-- A set in brackets that has not been closed. -/
structure Bracket where
  /-- The opening bracket with what belongs to it. -/
  opening : Span
  negated : Bool
  /-- What stands to the left of the operator in progress. -/
  left : Option (Operand × SetOperator)
  members : UnionDraft

/-- Nested sets in brackets. -/
inductive BracketNest where
  | within (innermost : Bracket) (around : List Bracket)
  | closed (set : CharSet)

namespace Bracket
open Chip8.Pattern.Reader

/-- Notes a set whose other cases are asked for and not known. The empty set has none. -/
def noteCase (o : Operand) : Reader Unit := do
  let flags := (← get).flags
  if flags.ignoreCase && flags.scripts && !o.set.isEmpty then noteDoubt .scriptCaseMissing o.span

/-- A set with both cases if case is ignored. -/
def folded (o : Operand) : Reader CharSet := do
  noteCase o
  return if (← get).flags.ignoreCase then o.set.withBothCases else o.set

/-- A set, or all characters but those of the set, with both cases if case is ignored. -/
def settled (o : Operand) (negated : Bool) : Reader CharSet := do
  let set ← folded o
  if !negated then return set
  if !(← get).flags.scripts then noteDoubt .notText o.span
  return set.complement

/-- What has been read since the bracket was opened. -/
def whole (b : Bracket) : Reader Operand :=
  match b.left with
  | none => return b.members.operand
  | some (left, operator) => do
    let right := b.members.operand
    let rightSet ← folded right
    let leftSet ← folded left
    return ⟨operator.apply leftSet rightSet, left.span.start, right.span.stop⟩

/-- Takes hyphens that come first, which stand for themselves. -/
def readHyphens (opening : Place) (members : UnionDraft) : Reader UnionDraft :=
  loop (fun members => do
    if (← current) ≠ some '-' then return none
    let span ← currentSpan
    if (← takeAndSkip).isNone then refuse .setUnclosed (.emptyAt opening)
    return some (members.add (.single '-') span)) members

/-- Reads an opening bracket, and what has a meaning of its own only directly behind it: a circumflex,
hyphens, or a closing bracket. -/
def readOpening : Reader Bracket := do
  let start ← here
  if (← takeAndSkip).isNone then refuse .setUnclosed (← spanFrom start)
  let negated := (← current) = some '^'
  if negated then
    if (← takeAndSkip).isNone then refuse .setUnclosed (← spanFrom start)
  let members ← readHyphens start (.blank (← here))
  let mut members := members
  if members.span.isNone && (← current) = some ']' then
    members := members.add (.single ']') (← currentSpan)
    if (← takeAndSkip).isNone then refuse .setUnclosed (← spanFrom start)
  return ⟨← spanFrom start, negated, none, members⟩

/-- Reads a named set between colons, of which the bracket before it comes next, and answers it with
whether it is negated. Anything else is left as it is. -/
def readNamed : Reader (Option (CharSet × Bool)) := do
  let before ← get
  take
  let colon ← takeText ":"
  let negated ← takeText "^"
  let name := (← get).rest.takeWhile (· ≠ ':')
  name.forM fun _ => take
  match colon && (← takeText ":]"), CharSet.named? (String.ofList name) with
  | true, some set => return some (set, negated)
  | _, _ =>
    set before
    return none

/-- Reads an element in brackets. -/
def readItem : Reader (Element × Span) := do
  let start ← here
  match ← current with
  | none => refuse .setUnclosed (← spanFrom start)
  | some '\\' =>
    let element ← readEscape
    return (element, ← spanFrom start)
  | some c =>
    take
    return (.literal c false, ← spanFrom start)

/-- Reads an element or a range. A hyphen makes no range if a closing bracket or another hyphen
follows. -/
def readMember (b : Bracket) : Reader Bracket := do
  let (first, firstSpan) ← readItem
  skip
  let next ← current
  if next.isNone then refuse .setUnclosed b.opening
  let after ← followingUnskipped
  if next ≠ some '-' ∨ after = some ']' ∨ after = some '-' then
    return { b with members := b.members.add (← first.members firstSpan) firstSpan }
  if (← takeAndSkip).isNone then refuse .setUnclosed b.opening
  let (last, lastSpan) ← readItem
  let (low, lowByCode) ← first.rangeEnd firstSpan
  let (high, highByCode) ← last.rangeEnd lastSpan
  let span : Span := ⟨firstSpan.start, lastSpan.stop⟩
  if high < low then refuse .setRangeReversed span
  Element.noteMember firstSpan low lowByCode
  Element.noteMember lastSpan high highByCode
  return { b with members := b.members.add (.between low high) span }

/-- Reads what comes next if it is an operator. -/
def readOperator? : Reader (Option SetOperator) := do
  if ← takeText "&&" then return some .intersection
  if ← takeText "--" then return some .subtraction
  if ← takeText "~~" then return some .difference
  return none

/-- Closes a set in brackets, of which the closing bracket comes next. -/
def close (b : Bracket) (around : List Bracket) : Reader BracketNest := do
  let whole ← b.whole
  take
  let span ← spanFrom b.opening.start
  let set ← settled ⟨whole.set, span⟩ b.negated
  match around with
  | [] => return .closed set
  | outer :: around => return .within { outer with members := outer.members.add set span } around

/-- Reads the next part of a set in brackets. -/
def readPart (b : Bracket) (around : List Bracket) : Reader BracketNest := do
  skip
  match ← current with
  | none => refuse .setUnclosed b.opening
  | some '[' =>
    let start ← here
    match ← readNamed with
    | some (set, negated) =>
      let span ← spanFrom start
      let set ← settled ⟨set, span⟩ negated
      return .within { b with members := b.members.add set span } around
    | none => return .within (← readOpening) (b :: around)
  | some ']' => b.close around
  | some _ =>
    match ← readOperator? with
    | some operator =>
      let whole ← b.whole
      return .within { b with left := some (whole, operator), members := .blank (← here) } around
    | none => return .within (← b.readMember) around

/-- Reads on until the first bracket is closed. -/
def step : BracketNest → Reader (Option BracketNest)
  | .within b around => some <$> b.readPart around
  | .closed _ => return none

/-- Reads a set in brackets, of which the opening bracket comes next. -/
def read : Reader CharSet := do
  match ← loop step (.within (← readOpening) []) with
  | .closed set => return set
  | .within b _ => refuse .setUnclosed b.opening

end Bracket

end Chip8.Pattern
