import Chip8.Pattern.Bracket
import Chip8.Pattern.Group

/-!
# Patterns from text

`Pattern.parse` reads a whole pattern. Groups may be nested; the flags set inside of one end with it.
-/
namespace Chip8.Pattern

/-- The part of a group that has been read. -/
structure Draft where
  /-- The alternatives before the one in progress, last first. -/
  earlier : List Pattern
  /-- The items of the alternative in progress, last first. A setting of flags is an item without a
  pattern, and cannot be repeated. -/
  items : List (Option Pattern)

namespace Draft

/-- Nothing yet. -/
def blank : Draft := ⟨[], []⟩

/-- Adds an item. -/
def add (d : Draft) (item : Option Pattern) : Draft := { d with items := item :: d.items }

/-- The alternative in progress. -/
def alternative (d : Draft) : Pattern := joined (d.items.reverse.filterMap id)

/-- Begins another alternative. -/
def branch (d : Draft) : Draft := ⟨d.alternative :: d.earlier, []⟩

/-- The group as a pattern. -/
def pattern (d : Draft) : Pattern :=
  match d.earlier.reverse with
  | [] => d.alternative
  | first :: others => orAny first (others ++ [d.alternative])

end Draft

/-- A group that has not been closed. -/
structure OpenGroup where
  parenthesis : Span
  /-- The flags outside of the group. -/
  flags : Flags
  outside : Draft

/-- Nested groups. -/
structure Nest where
  innermost : Draft
  around : List OpenGroup

namespace Nest
open Chip8.Pattern.Reader

/-- Adds an item to the innermost group. -/
def add (n : Nest) (item : Option Pattern) : Nest := { n with innermost := n.innermost.add item }

/-- Puts flags in force. -/
def setFlags (flags : Flags) : Reader Unit := modify fun r => { r with flags := flags }

/-- Reads an opening parenthesis. -/
def enter (n : Nest) : Reader Nest := do
  let parenthesis ← currentSpan
  let outside := (← get).flags
  match ← Opening.read with
  | .setting flags =>
    setFlags flags
    return n.add none
  | .group flags =>
    setFlags flags
    return ⟨.blank, ⟨parenthesis, outside, n.innermost⟩ :: n.around⟩

/-- Reads a closing parenthesis. -/
def leave (n : Nest) : Reader Nest := do
  match n.around with
  | [] => refuse .groupUnopened (← currentSpan)
  | g :: around =>
    setFlags g.flags
    take
    return ⟨g.outside.add (some n.innermost.pattern), around⟩

/-- Reads how often the last item is repeated. -/
def repeatLast (n : Nest) (c : Char) : Reader Nest := do
  match n.innermost.items with
  | some item :: items =>
    let counts ← Repetition.read c
    let repeated := item.times counts.least counts.most
    return { n with innermost := { n.innermost with items := some repeated :: items } }
  | _ => refuse .nothingToRepeat (.emptyAt (← here))

/-- Reads an element. -/
def readElement (n : Nest) (c : Char) : Reader Nest := do
  let start ← here
  let element ← Reader.readElement c
  return n.add (some (← element.pattern (← spanFrom start)))

/-- Reads the next part of a pattern. -/
def step (n : Nest) : Reader (Option Nest) := do
  skip
  match ← current with
  | none => return none
  | some '(' => some <$> n.enter
  | some ')' => some <$> n.leave
  | some '|' =>
    take
    return some { n with innermost := n.innermost.branch }
  | some '[' => return some (n.add (some (.one (← Bracket.read))))
  | some c =>
    if c = '?' ∨ c = '*' ∨ c = '+' ∨ c = '\x7b' then some <$> n.repeatLast c
    else some <$> n.readElement c

/-- Reads a whole pattern. -/
def read : Reader Pattern := do
  let n ← loop step ⟨.blank, []⟩
  match n.around with
  | [] => return n.innermost.pattern
  | g :: _ => refuse .groupUnclosed g.parenthesis

end Nest

/-- Why a pattern is refused. -/
inductive Refusal where
  | objection (o : Objection)
  | tooHeavy
  /-- It asks for words of any script. -/
  | scriptWords
  deriving DecidableEq, Repr

/-- The message about a pattern that is refused. -/
def Refusal.message (text : String) : Refusal → String
  | objection o => o.message text
  | tooHeavy => s!"Compiled regex exceeds size limit of {weightLimit} bytes."
  | scriptWords => "error building NFA"

/-- The pattern that a text describes. -/
def parse (text : String) : Except Refusal Pattern :=
  match Nest.read (.ofText text) with
  | .error o _ => .error (.objection o)
  | .ok p r =>
    match r.doubt with
    | some o => .error (.objection o)
    | none =>
      if weightLimit < p.weight then .error .tooHeavy
      else if p.asksForScripts then .error .scriptWords
      else .ok p

end Chip8.Pattern
