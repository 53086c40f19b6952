/-!
# Numerals

Numbers as people type them. A natural numeral is an optional plus sign and at least one digit of its
base, either case, any number of leading zeros; it is read only if its value is below a bound. A
decimal numeral has an optional sign and is a name (`inf`, `infinity`, `nan`, either case) or digits
with an optional point and an optional exponent; it is read as the nearest single-precision number,
an exact half going to the even neighbour.
-/
namespace Chip8.Text

/-- The value of a digit in a base up to 36. -/
def digitValue? (base : Nat) (c : Char) : Option Nat :=
  let value? :=
    if '0' ≤ c ∧ c ≤ '9' then some (c.toNat - '0'.toNat)
    else if 'a' ≤ c ∧ c ≤ 'z' then some (c.toNat - 'a'.toNat + 10)
    else if 'A' ≤ c ∧ c ≤ 'Z' then some (c.toNat - 'A'.toNat + 10)
    else none
  value?.filter (· < base)

/-- The value of a digit string, read on from `value`; nothing if a character is no digit. -/
def digitsValue? (base value : Nat) : List Char → Option Nat
  | [] => some value
  | c :: rest =>
    match digitValue? base c with
    | some d => digitsValue? base (value * base + d) rest
    | none => none

/-- The text without a plus sign in front. -/
def dropPlus : List Char → List Char
  | '+' :: rest => rest
  | cs => cs

/-- The value of a natural numeral, if it is one and its value is below `bound`. -/
def natural? (base bound : Nat) (cs : List Char) : Option Nat :=
  match dropPlus cs with
  | [] => none
  | c :: rest => (digitsValue? base 0 (c :: rest)).filter (· < bound)

/-- Whether a character is a decimal digit. -/
def isDecimalDigit (c : Char) : Bool := (digitValue? 10 c).isSome

/-- The value of a string of decimal digits. -/
def decimalValue (cs : List Char) : Nat := (digitsValue? 10 0 cs).getD 0

/-- The value of an exponent's digits. Once it has passed 65535 further digits are not counted: no
number a computer holds tells the difference. -/
def exponentValue (cs : List Char) : Nat :=
  cs.foldl (fun e c => if e < 65536 then e * 10 + (digitValue? 10 c).getD 0 else e) 0

/-- What follows the digits of a decimal numeral: nothing, or an exponent with at least one digit. -/
def exponent? : List Char → Option Int
  | [] => some 0
  | e :: rest =>
    if e = 'e' ∨ e = 'E' then
      let (negative, digits) := match rest with
        | '-' :: digits => (true, digits)
        | '+' :: digits => (false, digits)
        | digits => (false, digits)
      if digits ≠ [] ∧ digits.all isDecimalDigit then
        some (if negative then -(exponentValue digits : Int) else exponentValue digits)
      else none
    else none

/-- The digits of a numeral without sign, point removed, and the power of ten they are counted in. -/
def scientific? (cs : List Char) : Option (List Char × Int) :=
  let whole := cs.takeWhile isDecimalDigit
  let (fraction, rest) := match cs.dropWhile isDecimalDigit with
    | '.' :: rest => (rest.takeWhile isDecimalDigit, rest.dropWhile isDecimalDigit)
    | rest => ([], rest)
  if whole ++ fraction = [] then none
  else (exponent? rest).map fun e => (whole ++ fraction, e - fraction.length)

/-- The single-precision number nearest to some digits times a power of ten. Numbers far past the
largest or the smallest are settled by their order of magnitude. -/
def nearestSingle (digits : List Char) (power : Int) : Float32 :=
  let significant := digits.dropWhile (· = '0')
  let order := significant.length + power
  if significant = [] ∨ order < -60 then 0.0
  else if 60 < order then 1.0 / 0.0
  else Float32.ofScientific (decimalValue significant) (decide (power < 0)) power.natAbs

/-- The number of a numeral without sign. -/
def magnitude? (cs : List Char) : Option Float32 :=
  let name := cs.map Char.toLower
  if name = "inf".toList ∨ name = "infinity".toList then some (1.0 / 0.0)
  else if name = "nan".toList then some (0.0 / 0.0)
  else (scientific? cs).map fun (digits, power) => nearestSingle digits power

/-- The single-precision number of a decimal numeral. -/
def single? : List Char → Option Float32
  | '-' :: rest => (magnitude? rest).map (- ·)
  | '+' :: rest => magnitude? rest
  | cs => magnitude? cs

end Chip8.Text
