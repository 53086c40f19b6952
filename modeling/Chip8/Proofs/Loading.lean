import Chip8.Proofs.Execution
import Chip8.Proofs.Overlay

/-!
# Loading several images

A load puts an image and the glyph table into memory, and nothing else of the machine changes; an image that
does not fit changes nothing at all. Nothing is cleared in between: of several images each cell keeps the byte
that was put there last, so a short image leaves the tail of a longer one before it.

* `Memory.imprint`: what a load puts into a cell, if it puts anything there; `Memory.read_load` says so.
* `Memory.lastByte?`: the rule for the cells of the image.
* `Machine.read_run_loads`: over a list of loads, each cell holds the last byte put there, or what it held.
* `Machine.loads_overlay`: all of this cell by cell, with what each load answers.
-/
namespace Chip8

namespace Memory

/-- The images of a list that fit into memory. -/
def accepted (images : List (List UInt8)) : List (List UInt8) :=
  images.filter fun image => decide (image.length ≤ 3584)

/-- Byte number `k` of the last image of a list that is longer than `k`. -/
def lastByte? (images : List (List UInt8)) (k : Nat) : Option UInt8 :=
  (images.filterMap fun image => image[k]?).getLast?

/-- The byte that loading an image puts into a cell: of the image, of the glyph table, or none. -/
def imprint (a : Nat) (image : List UInt8) : Option UInt8 :=
  if imageStart ≤ a then image[a - imageStart]?
  else if glyphStart ≤ a then glyphTable[a - glyphStart]? else none

theorem imprint_image (k : Nat) (image : List UInt8) : imprint (imageStart + k) image = image[k]? := by
  rw [imprint, if_pos (Nat.le_add_right _ _), Nat.add_sub_cancel_left]

theorem imprint_glyph {k : Nat} (hk : k < glyphTable.length) (image : List UInt8) :
    imprint (glyphStart + k) image = some glyphTable[k] := by
  have hlen : glyphTable.length = 80 := rfl
  rw [imprint, if_neg (by simp only [imageStart, glyphStart]; omega), if_pos (Nat.le_add_right _ _),
    Nat.add_sub_cancel_left, List.getElem?_eq_getElem hk]

theorem imprint_other {a : Nat} (ha : a < imageStart)
    (hapart : a < glyphStart ∨ glyphStart + glyphTable.length ≤ a) (image : List UInt8) :
    imprint a image = none := by
  rw [imprint, if_neg (Nat.not_le.mpr ha)]
  split
  · rw [List.getElem?_eq_none_iff]
    omega
  · rfl

/-- After a load a cell holds the byte put there, or what it held. -/
theorem read_load {m m' : Memory} {image : List UInt8} (h : m.load image = .ok m') (a : Nat) :
    m'.read a = (imprint a image).elim (m.read a) .ok := by
  have hlen : glyphTable.length = 80 := rfl
  have hglyph : glyphStart = 0x50 := rfl
  have himage : imageStart = 0x200 := rfl
  by_cases ha : imageStart ≤ a
  · obtain ⟨k, rfl⟩ := Nat.exists_eq_add_of_le ha
    rw [imprint_image]
    by_cases hk : k < image.length
    · rw [List.getElem?_eq_getElem hk]
      exact read_load_image h hk
    · rw [List.getElem?_eq_none_iff.mpr (Nat.not_lt.mp hk)]
      exact read_load_other h (by omega) (by omega)
  · by_cases hk : glyphStart ≤ a ∧ a < glyphStart + glyphTable.length
    · obtain ⟨k, rfl⟩ := Nat.exists_eq_add_of_le hk.1
      rw [imprint_glyph (by omega)]
      exact read_load_glyphs h (by omega)
    · rw [imprint_other (by omega) (by omega)]
      exact read_load_other h (by omega) (by omega)

end Memory

namespace Machine

open Memory

variable {m m' : Machine} {image : List UInt8}

/-- What a load answers: it is refused exactly if the image is too long, with its length, and then nothing
of the machine changes. -/
structure LoadAnswers (m : Machine) (image : List UInt8) : Prop where
  ok_iff : (m.load image).result = .ok () ↔ image.length ≤ 3584
  error_iff : ∀ e, (m.load image).result = .error e ↔
    3584 < image.length ∧ e = .fault (.programTooLarge image.length)
  refused : 3584 < image.length → (m.load image).machine = m

/-- What a list of loads makes of a machine. -/
structure LoadsLeave (images : List (List UInt8)) (m m' : Machine) : Prop where
  glyphs : (∃ image ∈ images, image.length ≤ 3584) →
    ∀ k (hk : k < glyphTable.length), m'.memory.read (0x050 + k) = .ok glyphTable[k]
  /-- Byte number `k` of the last image that fits and is longer than `k`, or what the cell held. -/
  image : ∀ k < 3584, m'.memory.read (0x200 + k) =
    (lastByte? (accepted images) k).elim (m.memory.read (0x200 + k)) .ok
  others : ∀ a < 0x200, a < 0x050 ∨ 0x09F < a → m'.memory.read a = m.memory.read a
  rest : m' = { m with memory := m'.memory }

/-! ## One load -/

theorem load_of_le (m : Machine) (h : image.length ≤ 3584) :
    ∃ memory, m.memory.load image = .ok memory ∧
      m.load image = ⟨{ m with memory := memory }, [.loaded image.length], .ok ()⟩ := by
  have hmemory : m.memory.load image = .ok (m.memory.overlay imageStart image).installGlyphs :=
    load_eq_ok_iff.mpr ⟨h, rfl⟩
  refine ⟨_, hmemory, ?_⟩
  rw [Machine.load, hmemory]

theorem load_of_lt (m : Machine) (h : 3584 < image.length) :
    m.load image = ⟨m, [], .error (.fault (.programTooLarge image.length))⟩ := by
  have hmemory : m.memory.load image = .error (.programTooLarge image.length) :=
    if_neg (Nat.not_le.mpr h)
  rw [Machine.load, hmemory]

theorem loadAnswers (m : Machine) (image : List UInt8) : m.LoadAnswers image := by
  rcases Nat.lt_or_ge 3584 image.length with h | h
  · refine ⟨?_, ?_, ?_⟩
    · simp [load_of_lt m h, Nat.not_le.mpr h]
    · simp [load_of_lt m h, h, eq_comm]
    · simp [load_of_lt m h]
  · obtain ⟨memory, -, hload⟩ := load_of_le m h
    refine ⟨?_, ?_, fun hlt => absurd h (Nat.not_le.mpr hlt)⟩
    · simp [hload, h]
    · simp [hload, Nat.not_lt.mpr h]

/-! ## A list of loads -/

/-- Over a list of loads a cell holds the last byte put there, or what it held. -/
theorem read_run_loads (m : Machine) (images : List (List UInt8)) (a : Nat) :
    (m.run (images.map .load)).memory.read a =
      ((accepted images).filterMap (imprint a)).getLast?.elim (m.memory.read a) .ok := by
  induction images generalizing m with
  | nil => rfl
  | cons image rest ih =>
    rw [List.map_cons, run, ih, perform]
    rcases Nat.lt_or_ge 3584 image.length with h | h
    · have hrefused : accepted (image :: rest) = accepted rest :=
        List.filter_cons_of_neg (by simpa using h)
      rw [load_of_lt m h, hrefused]
    · have htaken : accepted (image :: rest) = image :: accepted rest :=
        List.filter_cons_of_pos (by simpa using h)
      obtain ⟨memory, hmemory, hload⟩ := load_of_le m h
      rw [hload, htaken]
      show _ = Option.elim _ _ _
      rw [read_load hmemory, List.filterMap_cons]
      -- what this load puts into the cell stays there unless a later one puts something
      cases imprint a image with
      | none => rfl
      | some b =>
        rw [List.getLast?_cons]
        cases ((accepted rest).filterMap (imprint a)).getLast? <;> rfl

theorem rest_run_loads (m : Machine) (images : List (List UInt8)) :
    m.run (images.map .load) = { m with memory := (m.run (images.map .load)).memory } := by
  refine run_induction (P := fun m' => m' = { m with memory := m'.memory }) ?_ rfl
  intro op hop m' hm'
  obtain ⟨image, -, rfl⟩ := List.mem_map.mp hop
  rw [perform]
  rcases Nat.lt_or_ge 3584 image.length with h | h
  · rw [load_of_lt m' h]
    exact hm'
  · obtain ⟨memory, -, hload⟩ := load_of_le m' h
    rw [hload, hm']

theorem loadsLeave (m : Machine) (images : List (List UInt8)) :
    LoadsLeave images m (m.run (images.map .load)) where
  glyphs := by
    rintro ⟨image, hmem, hfit⟩ k hk
    have hsome : imprint (0x050 + k) = fun _ => some glyphTable[k] :=
      funext fun image => imprint_glyph hk image
    have hne : accepted images ≠ [] :=
      List.ne_nil_of_mem (List.mem_filter.mpr ⟨hmem, decide_eq_true hfit⟩)
    rw [read_run_loads, hsome, List.filterMap_eq_map', List.getLast?_map,
      List.getLast?_eq_some_getLast hne]
    rfl
  image k hk := by
    have himage : imprint (0x200 + k) = fun image => image[k]? := funext (imprint_image k)
    rw [read_run_loads, himage]
    rfl
  others a ha hapart := by
    have hnone : imprint a = fun _ => none :=
      funext fun image => imprint_other ha hapart image
    rw [read_run_loads, hnone, List.filterMap_eq_nil_iff.mpr fun _ _ => rfl]
    rfl
  rest := rest_run_loads m images

/-- For every machine, halted or not: a load is refused exactly if the image is longer than 3584 bytes, and
then changes nothing. After any list of loads the glyph table is in its place if one of them was carried out,
each cell from `0x200` on holds the byte of the last image carried out that is long enough, and every other
cell and every other component is as it was. -/
theorem loads_overlay (m : Machine) :
    (∀ image, m.LoadAnswers image) ∧
      ∀ images, LoadsLeave images m (m.run (images.map .load)) :=
  ⟨loadAnswers m, loadsLeave m⟩

/-- A machine that stopped at its first instruction, with a byte in the last cell. -/
def stoppedEarly : Machine :=
  { new .classic (.ofSeed 0) with memory := Memory.blank.overlay 0xFFF [0x42], halted := true }

/-- An image of one byte more than fit. -/
def tooLong : List UInt8 := List.replicate 3585 7

/-- The image of one byte leaves the tail of the image of three, the one that is too long leaves nothing, and
the last cell keeps its byte. -/
theorem loads_overlay_stale_tail :
    let images := [[1, 2, 3], tooLong, [9], []]
    let m := stoppedEarly.run (images.map .load)
    (stoppedEarly.load tooLong).result = .error (.fault (.programTooLarge 3585)) ∧
      (∃ image ∈ images, image.length ≤ 3584) ∧
      m.memory.read (0x050 + 79) = .ok 0x80 ∧
      m.memory.read (0x200 + 0) = .ok 9 ∧ m.memory.read (0x200 + 1) = .ok 2 ∧
      m.memory.read (0x200 + 2) = .ok 3 ∧ m.memory.read (0x200 + 3583) = .ok 0x42 ∧
      m.halted = true := by
  intro images m
  have hlong : tooLong.length = 3585 := List.length_replicate
  have htaken : accepted images = [[1, 2, 3], [9], []] := by
    simp [accepted, images, hlong]
  have hfits : ∃ image ∈ images, image.length ≤ 3584 := ⟨[9], by simp [images], by decide⟩
  have hlast : stoppedEarly.memory.read (0xFFF + 0) = .ok 0x42 :=
    read_overlay_of_mem .blank [0x42] (by decide) (by decide)
  obtain ⟨hanswers, hleave⟩ := loads_overlay stoppedEarly
  obtain ⟨hglyphs, himage, -, hrest⟩ := hleave images
  rw [htaken] at himage
  refine ⟨?_, hfits, hglyphs hfits 79 (by decide), himage 0 (by decide), himage 1 (by decide),
    himage 2 (by decide), (himage 3583 (by decide)).trans hlast, congrArg halted hrest⟩
  rw [(hanswers tooLong).error_iff, hlong]
  exact ⟨by decide, rfl⟩

end Machine
end Chip8
