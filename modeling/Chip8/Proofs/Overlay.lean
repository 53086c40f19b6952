import Chip8.Machine.Step

/-!
# Bytes put into consecutive cells

`Memory.overlay` and `Registers.overlay` put a list of bytes down cell by cell. Here they are said of one
cell at a time: a cell of the range holds the byte of its number, and every other cell what it held.

* `Memory.read_overlay_of_mem`, `Memory.read_overlay_of_not_mem`: the two cases for memory.
* `Registers.get_overlay_of_le`: registers past the bytes are kept.
* `Memory.read_load_image`, `Memory.read_load_glyphs`, `Memory.read_load_other`: what a loaded image, the glyph
  table and the rest of memory read as.
-/
namespace Chip8

namespace Memory

variable (m : Memory)

theorem read_set (address : Nat) (b : UInt8) (a : Nat) :
    (⟨m.cells.setIfInBounds address b⟩ : Memory).read a =
      if a = address ∧ a < memorySize then .ok b else m.read a := by
  unfold read
  by_cases ha : a < memorySize
  · simp only [ha, dif_pos, and_true, Vector.getElem_setIfInBounds, eq_comm (a := a)]
    split <;> rfl
  · simp only [ha, dif_neg, not_false_eq_true, and_false, if_false]

/-- A cell outside the range keeps its byte. -/
theorem read_overlay_of_not_mem (bytes : List UInt8) {address a : Nat}
    (h : a < address ∨ address + bytes.length ≤ a) : (m.overlay address bytes).read a = m.read a := by
  induction bytes generalizing m address with
  | nil => rfl
  | cons b rest ih =>
    rw [List.length_cons] at h
    rw [overlay, ih _ (by omega), read_set, if_neg (by omega)]

/-- Cell number `k` of the range holds byte number `k`. -/
theorem read_overlay_of_mem (bytes : List UInt8) {address k : Nat} (hk : k < bytes.length)
    (hfit : address + k < memorySize) :
    (m.overlay address bytes).read (address + k) = .ok bytes[k] := by
  induction bytes generalizing m address k with
  | nil => cases hk
  | cons b rest ih =>
    rw [overlay]
    cases k with
    | zero => rw [read_overlay_of_not_mem _ _ (by omega), read_set, if_pos ⟨rfl, hfit⟩]; rfl
    | succ k =>
      rw [show address + (k + 1) = address + 1 + k by omega]
      exact ih _ (Nat.lt_of_succ_lt_succ hk) (by omega)

variable {m} {m' : Memory} {image : List UInt8}

theorem load_eq_ok_iff :
    m.load image = .ok m' ↔
      image.length ≤ maxImageSize ∧ m' = (m.overlay imageStart image).installGlyphs := by
  unfold load
  split
  · rename_i h
    simp [h, eq_comm]
  · rename_i h
    simp [h]

theorem read_load_glyphs (h : m.load image = .ok m') {k : Nat} (hk : k < glyphTable.length) :
    m'.read (glyphStart + k) = .ok glyphTable[k] := by
  obtain ⟨-, rfl⟩ := load_eq_ok_iff.mp h
  have hlen : glyphTable.length = 80 := rfl
  exact read_overlay_of_mem _ glyphTable hk (by simp only [glyphStart, memorySize]; omega)

theorem read_load_image (h : m.load image = .ok m') {k : Nat} (hk : k < image.length) :
    m'.read (imageStart + k) = .ok image[k] := by
  obtain ⟨hfit, rfl⟩ := load_eq_ok_iff.mp h
  have hlen : glyphTable.length = 80 := rfl
  have hsize : maxImageSize = 3584 := rfl
  -- the glyph table lies below the image
  rw [installGlyphs, read_overlay_of_not_mem _ _ (by simp only [glyphStart, imageStart]; omega)]
  exact read_overlay_of_mem m image hk (by simp only [imageStart, memorySize]; omega)

theorem read_load_other (h : m.load image = .ok m') {a : Nat}
    (himage : a < imageStart ∨ imageStart + image.length ≤ a)
    (hglyphs : a < glyphStart ∨ glyphStart + glyphTable.length ≤ a) : m'.read a = m.read a := by
  obtain ⟨-, rfl⟩ := load_eq_ok_iff.mp h
  rw [installGlyphs, read_overlay_of_not_mem _ _ hglyphs, read_overlay_of_not_mem _ _ himage]

end Memory

namespace Registers

theorem get_set (r : Registers) (x : Register) (value : UInt8) (j : Register) :
    (r.set x value).get j = if x = j then value else r.get j := by
  unfold get set
  simp [Vector.getElem_set, Fin.ext_iff]

/-- Registers past the bytes are kept. -/
theorem get_overlay_of_le (r : Registers) (bytes : List UInt8) {position : Nat} {j : Register}
    (h : j.val < position ∨ position + bytes.length ≤ j.val) :
    (r.overlay position bytes).get j = r.get j := by
  induction bytes generalizing r position with
  | nil => rfl
  | cons b rest ih =>
    rw [List.length_cons] at h
    rw [overlay, ih _ (by omega)]
    have hne : position ≠ j.val := by omega
    simp [get, hne]

end Registers

end Chip8
