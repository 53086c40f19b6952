import Chip8.Pattern.CharSet

/-!
# Patterns

A `Pattern` describes texts: a character of a set, a condition on the place between two characters, one
pattern after another, one of two, or one repeated. `occursIn` says whether a pattern describes a part
of a text.

A text of n characters has n + 1 places. The places reached so far are a list of truth values, and
`reach` takes them to the places reached behind the pattern. So a search goes through the pattern once,
whatever the number of ways in which a text can be taken apart, and it needs no bound on its steps.
-/
namespace Chip8

/-- How words and their edges lie around a place. -/
inductive WordEdge where
  /-- A word begins or ends. -/
  | change
  /-- No word begins or ends. -/
  | noChange
  | start
  | stop
  /-- No word comes before. -/
  | noneBefore
  /-- No word comes after. -/
  | noneAfter
  deriving DecidableEq, Repr

/-- Whether an edge lies between a character of a word, or none, and another. -/
def WordEdge.lies (before after : Bool) : WordEdge → Bool
  | change => before != after
  | noChange => before == after
  | start => !before && after
  | stop => before && !after
  | noneBefore => !before
  | noneAfter => !after

/-- A condition on a place of a text. -/
inductive Look where
  | textStart
  | textEnd
  /-- The start of a line; also after a carriage return, if these end lines. -/
  | lineStart (returns : Bool)
  /-- The end of a line; also before a carriage return, if these end lines. -/
  | lineEnd (returns : Bool)
  | word (edge : WordEdge)
  /-- An edge of a word in any script. It is never found: a pattern with one is refused. -/
  | scriptWord
  deriving DecidableEq, Repr

namespace Look

/-- Whether there is a character, and it is one of a word. -/
def inWord (c : Option Char) : Bool := c.any CharSet.wordCharacters.has

/-- Whether the condition holds between two characters. A line feed after a carriage return ends the
same line. -/
def holds (before after : Option Char) : Look → Bool
  | textStart => before.isNone
  | textEnd => after.isNone
  | lineStart returns =>
    before.isNone || before == some '\n' || (returns && before == some '\r' && after != some '\n')
  | lineEnd false => after.isNone || after == some '\n'
  | lineEnd true => after.isNone || after == some '\r' || (after == some '\n' && before != some '\r')
  | word edge => edge.lies (inWord before) (inWord after)
  | scriptWord => false

end Look

/-- A description of texts. -/
inductive Pattern where
  /-- The empty text. -/
  | empty
  /-- A character of a set. -/
  | one (set : CharSet)
  /-- The empty text, at a place that meets a condition. -/
  | look (condition : Look)
  | seq (first second : Pattern)
  | alt (first second : Pattern)
  /-- So many texts of a pattern, one after another; without a bound, if `most` is missing. -/
  | repeated (item : Pattern) (least : Nat) (most : Option Nat)
  deriving DecidableEq, Repr

namespace Pattern

/-- For each place of a text whether it has been reached. -/
abbrev Places := List Bool

/-- The places of either list. -/
def either (a b : Places) : Places := List.zipWith (· || ·) a b

/-- The characters before and after each place of a text. -/
def gaps (text : List Char) : List (Option Char × Option Char) :=
  List.zip (none :: text.map some) (text.map some ++ [none])

/-- The places after `n` steps. If a step changes nothing, further ones do not either. -/
def stepTimes (step : Places → Places) : Nat → Places → Places
  | 0, places => places
  | n + 1, places =>
    let next := step places
    if next = places then places else stepTimes step n next

/-- The places after at most `n` steps. -/
def spread (step : Places → Places) : Nat → Places → Places
  | 0, places => places
  | n + 1, places =>
    let next := either places (step places)
    if next = places then places else spread step n next

/-- The places behind a pattern that begins at one of the given places.

More steps than there are places make no difference: in so long a chain of places some place follows
itself. So a repetition never takes more of them. -/
def reach (text : List Char) : Pattern → Places → Places
  | empty, places => places
  | one set, places => false :: List.zipWith (fun reached c => reached && set.has c) places text
  | look condition, places =>
    List.zipWith (fun reached gap => reached && condition.holds gap.1 gap.2) places (gaps text)
  | seq first second, places => reach text second (reach text first places)
  | alt first second, places => either (reach text first places) (reach text second places)
  | repeated item least most, places =>
    let limit := text.length + 1
    let further := (most.map (· - least)).getD limit
    spread (reach text item) (min further limit) (stepTimes (reach text item) (min least limit) places)

/-- Whether a pattern describes a part of a text. -/
def occursIn (p : Pattern) (text : String) : Bool :=
  (reach text.toList p (List.replicate (text.length + 1) true)).any id

/-- The pattern that describes a number of texts of `item`. -/
def times (item : Pattern) (least : Nat) (most : Option Nat) : Pattern :=
  if most = some 0 then empty else repeated item least most

/-- The patterns of a list, one after another. -/
def joined : List Pattern → Pattern
  | [] => empty
  | [p] => p
  | p :: ps => seq p (joined ps)

/-- A pattern or one of a list. -/
def orAny (p : Pattern) : List Pattern → Pattern
  | [] => p
  | q :: qs => alt p (orAny q qs)

/-- Whether a pattern asks for words of any script. -/
def asksForScripts : Pattern → Bool
  | empty => false
  | one _ => false
  | look condition => condition = .scriptWord
  | seq first second => asksForScripts first || asksForScripts second
  | alt first second => asksForScripts first || asksForScripts second
  | repeated item _ _ => asksForScripts item

/-- An estimate of the bytes that a pattern takes when it is unrolled into single bytes. -/
def weight : Pattern → Nat
  | empty => 32
  | one set =>
    match set.ranges with
    | [(first, last)] =>
      if first = last then 32 * (Char.ofNat first).utf8Size else if set.isAscii then 64 else 352
    | ranges => (if set.isAscii then 64 else 344) + 8 * ranges.length
  | look _ => 32
  | seq first second => weight first + weight second
  | alt first second => weight first + weight second + 72
  | repeated item least none => max 1 least * weight item + 40
  | repeated item least (some most) => least * weight item + (most - least) * (weight item + 40) + 32

/-- The weight of the heaviest patterns that are accepted. -/
def weightLimit : Nat := 10485760

end Pattern

end Chip8
