/-!
# Lines

A text as lines. A line feed ends a line, and so does a carriage return followed by one. What stands
after the last line feed is a line of its own if there is anything.
-/
namespace Chip8.Text

/-- A line that a line feed ended, without a carriage return before it. -/
def dropReturn (line : List Char) : List Char :=
  if line.getLast? = some '\r' then line.dropLast else line

/-- The lines of a text, read on inside a line of which `line` has been read, last character first. -/
def linesFrom (line : List Char) : List Char → List (List Char)
  | [] => if line.isEmpty then [] else [line.reverse]
  | c :: rest =>
    if c = '\n' then dropReturn line.reverse :: linesFrom [] rest else linesFrom (c :: line) rest

/-- The lines of a text. -/
def lines (text : String) : List String :=
  (linesFrom [] text.toList).map String.ofList

end Chip8.Text
