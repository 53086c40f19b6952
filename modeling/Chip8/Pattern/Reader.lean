import Chip8.Pattern.Basic
import Chip8.Pattern.Objection
import Chip8.Text.Blank

/-!
# Reading written patterns

A `Reader` takes a written pattern character by character. It knows its place, the flags in force and
the group names given. A flaw in the writing ends the reading. A part that is well written but cannot be
searched for is only noted: it is the reason for refusing the pattern if nothing else is wrong.

A `Reader` repeats steps by `loop`, which ends because every step but the last takes a character.
-/
namespace Chip8.Pattern

/-- The settings of a pattern that its text can change. -/
structure Flags where
  ignoreCase : Bool
  /-- Lines have starts and ends of their own. -/
  lines : Bool
  /-- A dot stands for line feeds too. -/
  dotTakesAll : Bool
  /-- A carriage return ends a line. -/
  returns : Bool
  /-- Characters are of any script, and not single bytes. -/
  scripts : Bool
  /-- Blank characters and comments in the pattern are skipped. -/
  spaced : Bool
  /-- Repetitions prefer few items. This does not change what is found. -/
  lazy : Bool
  deriving DecidableEq, Repr

/-- The flags at the beginning of a pattern. -/
def Flags.initial : Flags := ⟨false, false, false, false, true, false, false⟩

/-- A pattern in the course of being read. -/
structure Reading where
  rest : List Char
  place : Place
  flags : Flags
  /-- The group names given so far. -/
  names : List (String × Span)
  /-- The first part that cannot be searched for. -/
  doubt : Option Objection

/-- Something read from a pattern. -/
abbrev Reader := EStateM Objection Reading

/-- The reading of a text before its first character. -/
def Reading.ofText (text : String) : Reading := ⟨text.toList, ⟨1, 1⟩, .initial, [], none⟩

/-- The reading behind the next character. -/
def Reading.next (r : Reading) : Reading :=
  match r.rest with
  | [] => r
  | c :: rest => { r with rest := rest, place := r.place.after c }

/-- Skips blank characters, and comments from a number sign to the end of the line. -/
def skipBlanks (inComment : Bool) : List Char → Place → List Char × Place
  | [], p => ([], p)
  | c :: rest, p =>
    if inComment then skipBlanks (c ≠ '\n') rest (p.after c)
    else if Text.isBlank c then skipBlanks false rest (p.after c)
    else if c = '#' then skipBlanks true rest (p.after c)
    else (c :: rest, p)

namespace Reader

/-- The character that comes next. -/
def current : Reader (Option Char) := return (← get).rest.head?

/-- The character after it, of those that are not skipped. -/
def followingUnskipped : Reader (Option Char) := do
  let r ← get
  if r.flags.spaced then
    match r.rest.tail.dropWhile Text.isBlank with
    | '#' :: rest => return (rest.dropWhile Text.isBlank).head?
    | rest => return rest.head?
  else return r.rest.tail.head?

/-- The place reached. -/
def here : Reader Place := return (← get).place

/-- The part that is the next character. -/
def currentSpan : Reader Span := do
  let r ← get
  return ⟨r.place, r.next.place⟩

/-- The part from a place to the one reached. -/
def spanFrom (start : Place) : Reader Span := return ⟨start, (← get).place⟩

/-- Takes a character. -/
def take : Reader Unit := modify Reading.next

/-- Skips what is to be skipped. -/
def skip : Reader Unit :=
  modify fun r =>
    if r.flags.spaced then
      let (rest, place) := skipBlanks false r.rest r.place
      { r with rest := rest, place := place }
    else r

/-- Takes a character and skips what is to be skipped; answers the character that comes next. -/
def takeAndSkip : Reader (Option Char) := do
  take
  skip
  current

/-- Takes a text, if it comes next. -/
def takeText (text : String) : Reader Bool := do
  if text.toList.isPrefixOf (← get).rest then
    text.toList.forM fun _ => take
    return true
  else return false

/-- Ends the reading. -/
def refuse {α : Type} (flaw : Flaw) (span : Span) : Reader α := throw ⟨flaw, span, none⟩

/-- Notes a part that cannot be searched for. -/
def noteDoubt (flaw : Flaw) (span : Span) : Reader Unit :=
  modify fun r => { r with doubt := r.doubt.or (some ⟨flaw, span, none⟩) }

/-- Repeats a step until it has nothing to do. A step that takes no character is the last. -/
def loop {σ : Type} (step : σ → Reader (Option σ)) (s : σ) (r : Reading) :
    EStateM.Result Objection Reading σ :=
  match step s r with
  | .error e r => .error e r
  | .ok none r => .ok s r
  | .ok (some next) after =>
    if _h : after.rest.length < r.rest.length then loop step next after else .ok next after
termination_by r.rest.length

end Reader

end Chip8.Pattern
