import Chip8.Proofs.Redrawing

/-!
# The pixels as they are read and as they are written

The pixels are kept row by row, read one by one at any coordinates, counted, and written as lines of text. All of
this is about the same pixels in the same order.

* `getElem?_flatMap_range`: what is where in parts of equal length, one after the other.
* `Screen.flatMap_row`: the rows, one after the other, are the pixels as they are kept.
* `Screen.filter_text`: the text without its line feeds has one character for each of these pixels.
* `Screen.views_agree`: the text, the pixels and their number.
-/
namespace Chip8

/-! ## Parts of equal length -/

section

variable {α : Type} {f : Nat → List α} {m n q p : Nat}

theorem length_flatMap_range (h : ∀ q, (f q).length = n) (m : Nat) : ((List.range m).flatMap f).length = n * m := by
  induction m with
  | zero => rfl
  | succ m ih =>
    rw [List.range_succ, List.flatMap_append, List.length_append, ih, List.flatMap_singleton, h, Nat.mul_succ]

theorem getElem?_flatMap_range (h : ∀ q, (f q).length = n) (hq : q < m) (hp : p < n) :
    ((List.range m).flatMap f)[n * q + p]? = (f q)[p]? := by
  induction m with
  | zero => omega
  | succ m ih =>
    have hlength : ((List.range m).flatMap f).length = n * m := length_flatMap_range h m
    rw [List.range_succ, List.flatMap_append, List.flatMap_singleton]
    rcases Nat.lt_succ_iff_lt_or_eq.mp hq with hq | rfl
    · -- The part ends before the last one begins.
      have hle : n * (q + 1) ≤ n * m := Nat.mul_le_mul_left n hq
      rw [Nat.mul_succ] at hle
      rw [List.getElem?_append_left (by omega)]
      exact ih hq
    · rw [List.getElem?_append_right (by omega), hlength, Nat.add_sub_cancel_left]

end

namespace Screen

variable (s : Screen)

/-! ## Rows -/

/-- One row of pixels. -/
def row (q : Nat) : List Bool := (List.range 64).map (s.pixel · q)

theorem length_row (q : Nat) : (s.row q).length = 64 := by rw [row, List.length_map, List.length_range]

theorem getElem?_row (q : Nat) {p : Nat} (hp : p < 64) : (s.row q)[p]? = some (s.pixel p q) := by
  rw [row, List.getElem?_map, List.getElem?_range hp]
  rfl

theorem getElem?_pixels (x y : Nat) : s.pixels.toList[y % 32 * 64 + x % 64]? = some (s.pixel x y) := by
  have hindex : y % 32 * 64 + x % 64 < s.pixels.toList.length := by
    rw [Vector.length_toList]
    exact pixelIndex_lt x y
  rw [List.getElem?_eq_getElem hindex, Vector.getElem_toList]
  rfl

/-- The rows one after the other are the pixels as they are kept. -/
theorem flatMap_row : (List.range 32).flatMap s.row = s.pixels.toList := by
  have hlength : ((List.range 32).flatMap s.row).length = 2048 := length_flatMap_range s.length_row 32
  have hcount : s.pixels.toList.length = 2048 := Vector.length_toList
  refine List.ext_getElem? fun i => ?_
  by_cases hi : i < 2048
  · have hplace : 64 * (i / 64) + i % 64 = i := by omega
    have hindex : i / 64 % 32 * 64 + i % 64 % 64 = i := by omega
    have hcolumn : i % 64 < 64 := by omega
    have hrow := getElem?_flatMap_range (m := 32) s.length_row (show i / 64 < 32 by omega) hcolumn
    have hpixel := s.getElem?_pixels (i % 64) (i / 64)
    rw [hplace] at hrow
    rw [hindex] at hpixel
    rw [hrow, hpixel, s.getElem?_row _ hcolumn]
  · rw [List.getElem?_eq_none (by omega), List.getElem?_eq_none (by omega)]

/-! ## Lines -/

/-- The character of a pixel. -/
def mark (isLit : Bool) : Char := if isLit then '#' else '.'

theorem mark_injective : Function.Injective mark := by decide

/-- The text of one row of pixels. -/
def line (q : Nat) : List Char := (s.row q).map mark

theorem length_line (q : Nat) : (s.line q).length = 64 := by rw [line, List.length_map, length_row]

theorem getElem?_line (q : Nat) {p : Nat} (hp : p < 64) :
    (s.line q)[p]? = some (if s.pixel p q then '#' else '.') := by
  rw [line, List.getElem?_map, s.getElem?_row q hp]
  rfl

theorem text_eq : s.text.toList = (List.range 32).flatMap fun q => s.line q ++ ['\n'] := by
  rw [text, gridText, String.toList_ofList]
  simp only [line, row, List.map_map]
  rfl

theorem flatMap_line : (List.range 32).flatMap s.line = s.pixels.toList.map mark := by
  rw [← flatMap_row, List.map_flatMap]
  rfl

/-- Without its line feeds the text has a character for each pixel, in the order in which they are kept. -/
theorem filter_text : s.text.toList.filter (· != '\n') = s.pixels.toList.map mark := by
  have hmark (isLit : Bool) : (mark isLit != '\n') = true := by cases isLit <;> rfl
  have hline (q : Nat) : (s.line q ++ ['\n']).filter (· != '\n') = s.line q := by
    have hself : (s.line q).filter (· != '\n') = s.line q :=
      List.filter_eq_self.mpr (List.forall_mem_map.mpr fun isLit _ => hmark isLit)
    rw [List.filter_append, hself]
    exact List.append_nil _
  rw [text_eq, List.filter_flatMap, ← flatMap_line]
  simp only [hline]

theorem litCount_eq_count_text : s.litCount = s.text.toList.count '#' := by
  have hfilter : (s.text.toList.filter (· != '\n')).count '#' = s.text.toList.count '#' := List.count_filter rfl
  rw [← hfilter, filter_text, litCount]
  exact (List.count_map_of_injective _ mark mark_injective true).symm

theorem text_eq_iff (t : Screen) : s.text = t.text ↔ s.pixels = t.pixels := by
  constructor
  · intro h
    have hmarks : s.pixels.toList.map mark = t.pixels.toList.map mark := by rw [← filter_text, ← filter_text, h]
    exact Vector.toList_inj.mp (mark_injective.list_map hmarks)
  · intro h
    rw [show s = t from congrArg Screen.mk h]

/-- The text is 32 lines of 64 characters, each ended by a line feed, and tells in line `q` and column `p` what the
pixel there is; the lines one after the other are the pixels as they are kept. A pixel read at any coordinates is the
one kept at their remainders, as many pixels are lit as the text has marks of lit ones, and no two screens have the
same text. -/
theorem views_agree :
    (∃ lines : List (List Char), s.text.toList = lines.flatMap (· ++ ['\n']) ∧ lines.length = 32 ∧
      (∀ line ∈ lines, line.length = 64) ∧
      (∀ q < 32, ∀ p < 64, lines[q]?.bind (·[p]?) = some (if s.pixel p q then '#' else '.')) ∧
      lines.flatten = s.pixels.toList.map fun isLit => if isLit then '#' else '.') ∧
    (∀ x y, s.pixels.toList[y % 32 * 64 + x % 64]? = some (s.pixel x y)) ∧
    s.litCount = s.text.toList.count '#' ∧
    ∀ t : Screen, s.text = t.text ↔ s.pixels = t.pixels := by
  refine ⟨⟨(List.range 32).map s.line, ?_, ?_, ?_, ?_, ?_⟩,
    s.getElem?_pixels, s.litCount_eq_count_text, s.text_eq_iff⟩
  · rw [text_eq, List.flatMap_map]
  · rw [List.length_map, List.length_range]
  · exact List.forall_mem_map.mpr fun q _ => s.length_line q
  · intro q hq p hp
    rw [List.getElem?_map, List.getElem?_range hq]
    exact s.getElem?_line q hp
  · exact s.flatMap_line

/-- Only the pixel at the right end of the last row is lit. -/
theorem views_agree_corner :
    let s := blank.toggle 63 31
    s.pixels.toList[2047]? = some true ∧ s.text.toList.count '#' = 1 ∧ s.text ≠ blank.text ∧
      ∃ lines : List (List Char), s.text.toList = lines.flatMap (· ++ ['\n']) ∧
        lines[31]?.bind (·[63]?) = some '#' ∧ lines[30]?.bind (·[63]?) = some '.' := by
  intro s
  have hlit : s.pixel 63 31 = true := by rw [pixel_toggle, pixel_blank]; rfl
  have hdark : s.pixel 63 30 = false := by rw [pixel_toggle, pixel_blank]; rfl
  have hcount : s.litCount = 1 := by simpa [pixel_blank, litCount_blank] using litCount_toggle blank 63 31
  obtain ⟨⟨lines, htext, -, -, hmarks, -⟩, hpixels, hmarked, hinjective⟩ := views_agree s
  have hne : s.text ≠ blank.text := fun h => by
    have hsame : s = blank := congrArg mk ((hinjective blank).mp h)
    rw [hsame, litCount_blank] at hcount
    cases hcount
  refine ⟨(hpixels 63 31).trans (congrArg some hlit), hmarked ▸ hcount, hne, lines, htext, ?_, ?_⟩
  · exact (hmarks 31 (by decide) 63 (by decide)).trans (by rw [hlit]; rfl)
  · exact (hmarks 30 (by decide) 63 (by decide)).trans (by rw [hdark]; rfl)

end Screen

end Chip8
