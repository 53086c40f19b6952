/-!
# Sets of characters

A `CharSet` is a list of ranges of character codes. Its operations are those of sets: `has_union`,
`has_intersect` and `has_subtract` say what belongs to a result. The ranges of a set made by these
operations are never empty ones, so that a set is empty only if it has no range.
-/
namespace Chip8

/-- A set of characters: those whose code lies in one of some ranges, both ends included. -/
structure CharSet where
  ranges : List (Nat × Nat)
  deriving DecidableEq, Repr

namespace CharSet

/-- Whether a code lies in a range. -/
def inRange (n : Nat) (r : Nat × Nat) : Bool := r.1 ≤ n && n ≤ r.2

/-- Whether a character belongs to a set. -/
def has (s : CharSet) (c : Char) : Bool := s.ranges.any (inRange c.toNat)

/-- The set of no character. -/
def empty : CharSet := ⟨[]⟩

/-- The set of all characters. The codes between its ranges belong to no character. -/
def every : CharSet := ⟨[(0, 0xD7FF), (0xE000, 0x10FFFF)]⟩

/-- The set of one character. -/
def single (c : Char) : CharSet := ⟨[(c.toNat, c.toNat)]⟩

/-- The characters of either set. -/
def union (s t : CharSet) : CharSet := ⟨s.ranges ++ t.ranges⟩

/-- The codes that two ranges share, if they share any. -/
def meet? (r t : Nat × Nat) : Option (Nat × Nat) :=
  if max r.1 t.1 ≤ min r.2 t.2 then some (max r.1 t.1, min r.2 t.2) else none

/-- The characters that two sets share. -/
def intersect (s t : CharSet) : CharSet :=
  ⟨s.ranges.flatMap fun r => t.ranges.filterMap (meet? r)⟩

/-- The codes of a range that another range lacks, as the part below it and the part above it. -/
def without (t r : Nat × Nat) : List (Nat × Nat) :=
  (if r.1 < t.1 then [(r.1, min r.2 (t.1 - 1))] else []) ++
    (if t.2 < r.2 then [(max r.1 (t.2 + 1), r.2)] else [])

/-- The characters of the first set that the second one lacks. -/
def subtract (s t : CharSet) : CharSet :=
  ⟨t.ranges.foldl (fun rs u => rs.flatMap (without u)) s.ranges⟩

/-- The characters that a set lacks. -/
def complement (s : CharSet) : CharSet := every.subtract s

/-- The characters of exactly one of two sets. -/
def difference (s t : CharSet) : CharSet := (s.subtract t).union (t.subtract s)

/-- The characters from one to another. -/
def between (first last : Char) : CharSet := intersect ⟨[(first.toNat, last.toNat)]⟩ every

/-- Whether a set has no character. -/
def isEmpty (s : CharSet) : Bool := s.ranges.isEmpty

/-- Whether a set has only characters with codes below 128. -/
def isAscii (s : CharSet) : Bool := s.ranges.all (·.2 < 128)

/-- The set with the other case of each of its letters from A to Z. -/
def withBothCases (s : CharSet) : CharSet :=
  let lower := (s.intersect (between 'A' 'Z')).ranges.map fun r => (r.1 + 32, r.2 + 32)
  let upper := (s.intersect (between 'a' 'z')).ranges.map fun r => (r.1 - 32, r.2 - 32)
  ⟨s.ranges ++ lower ++ upper⟩

/-- The set of the characters of a text. -/
def ofText (text : String) : CharSet := ⟨text.toList.map fun c => (c.toNat, c.toNat)⟩

/-- The digits from 0 to 9. -/
def digits : CharSet := between '0' '9'

/-- The letters from a to z. -/
def lowerCase : CharSet := between 'a' 'z'

/-- The letters from A to Z. -/
def upperCase : CharSet := between 'A' 'Z'

/-- The letters from a to z in either case. -/
def letters : CharSet := upperCase.union lowerCase

/-- Letters, digits and the low line, of which words consist. -/
def wordCharacters : CharSet := (digits.union letters).union (single '_')

/-- The six blank characters with codes below 128. -/
def blanks : CharSet := ofText "\t\n\x0b\x0c\r "

/-- The set with a name, which holds characters with codes below 128 only. -/
def named? (name : String) : Option CharSet :=
  match name with
  | "alnum" => some (digits.union letters)
  | "alpha" => some letters
  | "ascii" => some ⟨[(0, 0x7F)]⟩
  | "blank" => some (ofText "\t ")
  | "cntrl" => some ⟨[(0, 0x1F), (0x7F, 0x7F)]⟩
  | "digit" => some digits
  | "graph" => some (between '!' '~')
  | "lower" => some lowerCase
  | "print" => some (between ' ' '~')
  | "punct" => some ((between '!' '~').subtract (digits.union letters))
  | "space" => some blanks
  | "upper" => some upperCase
  | "word" => some wordCharacters
  | "xdigit" => some ((digits.union (between 'A' 'F')).union (between 'a' 'f'))
  | _ => none

@[simp] theorem has_empty (c : Char) : empty.has c = false := rfl

@[simp] theorem has_union (s t : CharSet) (c : Char) : (s.union t).has c = (s.has c || t.has c) := by
  simp [has, union]

theorem inRange_without (n : Nat) (t r : Nat × Nat) :
    (without t r).any (inRange n) = (inRange n r && !inRange n t) := by
  rw [Bool.eq_iff_iff]
  by_cases hl : r.1 < t.1 <;> by_cases hr : t.2 < r.2 <;>
    simp only [without, inRange, hl, hr, if_true, if_false, List.any_append, List.any_cons, List.any_nil,
      Bool.or_eq_true, Bool.and_eq_true, Bool.not_eq_true', Bool.and_eq_false_iff,
      decide_eq_false_iff_not, decide_eq_true_eq, Bool.false_eq_true, or_false, false_or, false_iff] <;>
    omega

/-- A character of the difference belongs to the first set and not to the second. -/
@[simp] theorem has_subtract (s t : CharSet) (c : Char) :
    (s.subtract t).has c = (s.has c && !t.has c) := by
  obtain ⟨ss⟩ := s
  obtain ⟨ts⟩ := t
  simp only [has, subtract]
  induction ts generalizing ss with
  | nil => simp
  | cons u us ih =>
    rw [List.foldl_cons, ih, List.any_cons]
    have hu : (ss.flatMap (without u)).any (inRange c.toNat) =
        (ss.any (inRange c.toNat) && !inRange c.toNat u) := by
      induction ss with
      | nil => rfl
      | cons r rs ihr =>
        rw [List.flatMap_cons, List.any_append, ihr, inRange_without, List.any_cons,
          Bool.and_or_distrib_right]
    rw [hu, Bool.not_or, Bool.and_assoc]

theorem inRange_meet (n : Nat) (r t : Nat × Nat) :
    (meet? r t).any (inRange n) = (inRange n r && inRange n t) := by
  rw [Bool.eq_iff_iff]
  by_cases h : max r.1 t.1 ≤ min r.2 t.2 <;>
    simp only [meet?, inRange, h, if_true, if_false, Option.any_some, Option.any_none, Bool.and_eq_true,
      decide_eq_true_eq, Bool.false_eq_true, false_iff] <;>
    omega

theorem any_filterMap_meet (n : Nat) (r : Nat × Nat) (ts : List (Nat × Nat)) :
    (ts.filterMap (meet? r)).any (inRange n) = (inRange n r && ts.any (inRange n)) := by
  induction ts with
  | nil => simp
  | cons t ts ih =>
    rw [List.any_cons, Bool.and_or_distrib_left, ← ih, ← inRange_meet, List.filterMap_cons]
    cases meet? r t <;> simp

/-- A character of the intersection belongs to both sets. -/
@[simp] theorem has_intersect (s t : CharSet) (c : Char) :
    (s.intersect t).has c = (s.has c && t.has c) := by
  simp only [has, intersect]
  induction s.ranges with
  | nil => rfl
  | cons r rs ih =>
    rw [List.flatMap_cons, List.any_append, ih, any_filterMap_meet, List.any_cons,
      Bool.and_or_distrib_right]

end CharSet

end Chip8
