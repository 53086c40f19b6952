import Chip8.Journal
import Chip8.Pattern.Parse
import Chip8.Text.Blank

/-!
# Log

A `Record` is a message with a level and a source. A `LogFilter` decides which records are shown. It is
made from a text: directives separated by commas, then possibly a slash and a pattern that must occur in
a shown message.

A directive is a level, the name of a source, or both with an equals sign between them. Of the
directives whose name begins the record's source the one with the longest name decides; one without a
name fits every source. Without any directive errors are shown and nothing else.
-/
namespace Chip8.Console

/-- A line for the log. -/
structure Record where
  level : Level
  source : String
  message : String
  deriving DecidableEq, Repr

/-- The record as text. Further lines of a message are indented. -/
def Record.line (r : Record) : String :=
  "[" ++ r.level.name.pushn ' ' (5 - r.level.name.length) ++ " " ++ r.source ++ "] " ++
    "\n    ".intercalate (r.message.splitOn "\n")

/-- How much a source may say: nothing, or records up to a level. -/
abbrev Volume := Option Level

/-- Whether a volume lets a level through. -/
def Volume.lets (v : Volume) (level : Level) : Bool :=
  match v with
  | none => false
  | some most => level.rank ≤ most.rank

/-- The volume of a level name, either case. -/
def Volume.ofName? (name : String) : Option Volume :=
  match name.map Char.toUpper with
  | "OFF" => some none
  | "ERROR" => some (some .error)
  | "WARN" => some (some .warning)
  | "INFO" => some (some .info)
  | "DEBUG" => some (some .debug)
  | "TRACE" => some (some .trace)
  | _ => none

/-- The volume of some sources. -/
structure Directive where
  /-- How the names of the sources begin; all sources, if missing. -/
  source : Option String
  volume : Volume
  deriving DecidableEq, Repr

namespace Directive

/-- Understands one directive. What cannot be understood is returned as the error. -/
def parse (text : String) : Except String Directive :=
  match text.toList.splitOn '=' with
  | [one] =>
    match Volume.ofName? (String.ofList one) with
    | some volume => .ok ⟨none, volume⟩
    | none => .ok ⟨some (String.ofList one), some .trace⟩
  | [name, level] =>
    let level := String.ofList (Text.trim level)
    if level = "" then .ok ⟨some (String.ofList name), some .trace⟩
    else match Volume.ofName? level with
      | some volume => .ok ⟨some (String.ofList name), volume⟩
      | none => .error level
  | _ => .error text

/-- Whether a directive is for a source. -/
def fits (d : Directive) (source : String) : Bool :=
  match d.source with
  | none => true
  | some name => name.toList.isPrefixOf source.toList

/-- Length of the name, which decides between directives that fit. -/
def nameLength (d : Directive) : Nat := (d.source.map String.utf8ByteSize).getD 0

/-- Adds a directive to a list, in the place of one for the same name if there is one. -/
def insert (ds : List Directive) (d : Directive) : List Directive :=
  if ds.any (·.source = d.source) then ds.map fun e => if e.source = d.source then d else e
  else ds ++ [d]

end Directive

/-- Which records are shown. -/
structure LogFilter where
  directives : List Directive
  /-- A pattern that occurs in a shown message. -/
  pattern : Option Pattern
  deriving DecidableEq, Repr

namespace LogFilter

/-- Shows errors and nothing else. -/
def errorsOnly : LogFilter := ⟨[⟨none, some .error⟩], none⟩

/-- The volume of a source. Of directives with names of one length the last counts. -/
def volume (f : LogFilter) (source : String) : Volume :=
  let best := f.directives.foldl (fun (best : Option Directive) d =>
    if d.fits source then
      match best with
      | some b => if d.nameLength < b.nameLength then some b else some d
      | none => some d
    else best) none
  best.bind Directive.volume

/-- Whether a record with a given message is shown, once its level is let through. -/
def wants (f : LogFilter) (message : String) : Bool :=
  match f.pattern with
  | none => true
  | some pattern => pattern.occursIn message

/-- Adds a record to a log, if it is shown. -/
def add (f : LogFilter) (log : Array Record) (r : Record) : Array Record :=
  if (f.volume r.source).lets r.level && f.wants r.message then log.push r else log

/-- A complaint about a text that cannot be understood. -/
def complaint (text reason : String) : String :=
  s!"warning: invalid logging spec '{text}', ignoring it{reason}"

/-- Understands a list of directives; each that cannot be understood is left out with a complaint. -/
def parseDirectives (text : List Char) : List Directive × List String :=
  let pieces := ((text.splitOn ',').map Text.trim).filter (· ≠ [])
  pieces.foldl (fun (directives, complaints) piece =>
    match Directive.parse (String.ofList piece) with
    | .ok d => (Directive.insert directives d, complaints)
    | .error text => (directives, complaints ++ [complaint text ""])) ([], [])

/-- Understands a pattern; without one that can be understood there is none, and a complaint. -/
def parsePattern (text : String) : Option Pattern × List String :=
  match Pattern.parse text with
  | .ok pattern => (some pattern, [])
  | .error refusal => (none, [s!"warning: invalid regex filter - {refusal.message text}"])

/-- Understands the text of a filter, and complains about what it cannot understand. -/
def parse (text : String) : LogFilter × List String :=
  match text.toList.splitOn '/' with
  | [] => (errorsOnly, [])
  | directives :: rest =>
    if 1 < rest.length then (errorsOnly, [complaint text " (too many '/'s)"])
    else
      let (directives, complaints) := parseDirectives directives
      let directives := if directives = [] then errorsOnly.directives else directives
      let (pattern, further) := match rest with
        | [] => (none, [])
        | text :: _ => parsePattern (String.ofList text)
      (⟨directives, pattern⟩, complaints ++ further)

end LogFilter

end Chip8.Console
