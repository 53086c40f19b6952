import Chip8.Proofs.Sprites
import Chip8.Proofs.Transfer

/-!
# Showing a number in decimal

Four instructions turn a byte into a digit on the screen: `Fx33` stores its three decimal digits, `F265` loads
them into `V0` to `V2`, `Fk29` points the index at the glyph of one of them, and `Dab5` draws the five bytes
found there. They have to agree on the order of the digits, on where the glyphs are and on how long one is, and
the digits must not be stored over the glyphs.

A glyph is narrower and lower than the screen, so no two of its bits land on one pixel: drawing it flips
exactly the pixels under its set bits (`Lands`), and turns a lit pixel off exactly if one of them was lit.

* `Screen.pixel_draw_iff_lands`, `Screen.hit_draw_iff_lands`: so with every sprite of at most 32 rows.
* `decimal_overlay`: the digits of a byte as registers.
* `Memory.HoldsGlyphs.bytes_eq`: the bytes from the glyph of a digit on are its five rows.
* `Machine.number_displayed`: the four instructions one after the other.
-/
namespace Chip8

/-- A set bit of a sprite at `(x, y)` lands on the pixel in column `p` and row `q`. -/
def Lands (x y : Nat) (sprite : List UInt8) (p q : Nat) : Prop :=
  ∃ r < sprite.length, ∃ c < 8, spriteBit sprite r c = true ∧
    (x + c) % screenWidth = p ∧ (y + r) % screenHeight = q

section

variable {x y p q : Nat} {sprite : List UInt8}

theorem coverage_pos_iff : 0 < coverage x y sprite p q ↔ Lands x y sprite p q := by
  rw [coverage, Finset.card_pos, Finset.filter_nonempty_iff]
  simp [Lands, and_assoc]

/-- Bits of a sprite that does not come back to its rows land on different pixels. -/
theorem coverage_le_one (hshort : sprite.length ≤ screenHeight) : coverage x y sprite p q ≤ 1 := by
  rw [coverage, Finset.card_le_one]
  rintro ⟨r, c⟩ hbit ⟨r', c'⟩ hbit'
  rw [Finset.mem_filter, Finset.mem_product, Finset.mem_range, Finset.mem_range] at hbit hbit'
  obtain ⟨⟨hr, hc⟩, -, hcolumn, hrow⟩ := hbit
  obtain ⟨⟨hr', hc'⟩, -, hcolumn', hrow'⟩ := hbit'
  simp only [screenWidth, screenHeight] at *
  rw [Prod.mk.injEq]
  -- two columns less than 8 apart, and two rows less than 32 apart, that agree on the screen are the same
  omega

end

namespace Screen

variable {x y : Nat} {sprite : List UInt8} (s : Screen) (hshort : sprite.length ≤ screenHeight)

include hshort

theorem pixel_draw_iff_lands {p q : Nat} (hp : p < screenWidth) (hq : q < screenHeight) :
    (s.draw x y sprite).1.pixel p q ≠ s.pixel p q ↔ Lands x y sprite p q := by
  have hle := coverage_le_one (x := x) (y := y) (p := p) (q := q) hshort
  rw [pixel_draw s x y sprite hp hq, ← coverage_pos_iff]
  have hodd : coverage x y sprite p q % 2 = 1 ↔ 0 < coverage x y sprite p q := by omega
  simp only [hodd]
  cases s.pixel p q <;> simp

theorem hit_draw_iff_lands :
    (s.draw x y sprite).2 = true ↔ ∃ p < screenWidth, ∃ q < screenHeight,
      Lands x y sprite p q ∧ s.pixel p q = true := by
  rw [hit_draw_iff]
  refine exists_congr fun p => and_congr_right fun _ => exists_congr fun q => and_congr_right fun _ => ?_
  have hle := coverage_le_one (x := x) (y := y) (p := p) (q := q) hshort
  rw [← coverage_pos_iff]
  cases s.pixel p q with
  | true => simp only [Bool.toNat_true, and_true]; omega
  | false => simp only [Bool.toNat_false, Bool.false_eq_true, and_false, iff_false]; omega

end Screen

/-! ## Digits and glyphs -/

/-- `V0`, `V1` and `V2` are the decimal digits of a number, the highest first. -/
structure Decimal (value : Nat) (r : Registers) : Prop where
  le_nine : ∀ k : Register, k.val ≤ 2 → (r.get k).toNat ≤ 9
  value_eq : 100 * (r.get ⟨0, by decide⟩).toNat + 10 * (r.get ⟨1, by decide⟩).toNat +
    (r.get ⟨2, by decide⟩).toNat = value

/-- The five bytes of the glyph of a digit. -/
def glyph (digit : Nat) : List UInt8 := (glyphTable.drop (5 * digit)).take 5

/-- The digits of a byte, put into `V0` to `V2`. -/
theorem decimal_overlay (r : Registers) (v : UInt8) :
    Decimal v.toNat (r.overlay 0 (decimalDigits v)) := by
  have hv := v.toNat_lt
  have hhundreds : (v / 100).toNat = v.toNat / 100 := UInt8.toNat_div v 100
  have htens : (v / 10 % 10).toNat = v.toNat / 10 % 10 := by
    rw [UInt8.toNat_mod, UInt8.toNat_div]
    rfl
  have hunits : (v % 10).toNat = v.toNat % 10 := UInt8.toNat_mod v 10
  have hget (k : Nat) (hk : k < 3) :
      (r.overlay 0 (decimalDigits v)).get ⟨k, by omega⟩ = (decimalDigits v)[k] :=
    r.get_overlay_of_mem (decimalDigits v) hk (Nat.zero_add _).symm
  have h0 : (r.overlay 0 (decimalDigits v)).get ⟨0, by decide⟩ = v / 100 := hget 0 (by decide)
  have h1 : (r.overlay 0 (decimalDigits v)).get ⟨1, by decide⟩ = v / 10 % 10 := hget 1 (by decide)
  have h2 : (r.overlay 0 (decimalDigits v)).get ⟨2, by decide⟩ = v % 10 := hget 2 (by decide)
  refine ⟨?_, ?_⟩
  · rintro ⟨k, hk⟩ hle
    obtain rfl | rfl | rfl : k = 0 ∨ k = 1 ∨ k = 2 := by
      simp only at hle
      omega
    · rw [h0, hhundreds]
      omega
    · rw [h1, htens]
      omega
    · rw [h2, hunits]
      omega
  · rw [h0, h1, h2, hhundreds, htens, hunits]
    omega

/-- The cells of the glyph table hold it. -/
def Memory.HoldsGlyphs (m : Memory) : Prop :=
  ∀ k (hk : k < glyphTable.length), m.read (0x050 + k) = .ok glyphTable[k]

/-- Bytes that are put down apart from the glyph table leave it in place. -/
theorem Memory.HoldsGlyphs.overlay {m : Memory} (h : m.HoldsGlyphs) {address : Nat} {bytes : List UInt8}
    (hapart : address + bytes.length ≤ 0x050 ∨ 0x0A0 ≤ address) :
    (m.overlay address bytes).HoldsGlyphs := by
  intro k hk
  have hlen : glyphTable.length = 80 := rfl
  rw [m.read_overlay_of_not_mem bytes (by omega)]
  exact h k hk

/-- The five bytes from the glyph of a digit on. -/
theorem Memory.HoldsGlyphs.bytes_eq {m : Memory} (h : m.HoldsGlyphs) {digit : Nat} (hdigit : digit < 16) :
    m.bytes (0x050 + 5 * digit) 5 = glyph digit := by
  have hlen : glyphTable.length = 80 := rfl
  have hlength : (glyph digit).length = 5 := by
    rw [glyph, List.length_take, List.length_drop]
    omega
  have hsize : memorySize = 4096 := rfl
  refine m.bytes_eq_of_read (by omega) hlength fun k hk => ?_
  rw [Nat.add_assoc, h (5 * digit + k) (by omega)]
  simp [glyph]

namespace Machine

/-- From one machine to the next, a sprite was drawn at `(x, y)`: the pixels under its set bits are flipped and
no others, and `VF` tells whether one of them was lit. -/
structure Stamped (sprite : List UInt8) (x y : Nat) (m m' : Machine) : Prop where
  pixels : ∀ p < 64, ∀ q < 32,
    m'.screen.pixel p q ≠ m.screen.pixel p q ↔ Lands x y sprite p q
  flag_iff : m'.registers.get .flag = 1 ↔
    ∃ p < 64, ∃ q < 32, Lands x y sprite p q ∧ m.screen.pixel p q = true
  flag_or : m'.registers.get .flag = 0 ∨ m'.registers.get .flag = 1

variable {m : Machine}

theorem execute_storeDecimal (x : Register) (hpc : m.pc.toNat ≤ 0xFFE) (hfit : m.index.toNat + 2 ≤ 4095) :
    (Word.ofByte 0xF x 0x33).execute m = .ok (m.pc + 2)
      { m with memory := m.memory.overlay m.index.toNat (decimalDigits (m.registers.get x)) } :=
  Word.execute_encode (i := .storeDecimal x) hpc trivial (by simp) (by simp) id
    (if_pos (Nat.succ_le_succ hfit))

theorem execute_pointGlyph (k : Register) (hpc : m.pc.toNat ≤ 0xFFE)
    (hdigit : (m.registers.get k).toNat < 16) :
    ∃ index : UInt16, index.toNat = 0x050 + 5 * (m.registers.get k).toNat ∧
      (Word.ofByte 0xF k 0x29).execute m = .ok (m.pc + 2) { m with index := index } := by
  refine ⟨UInt16.ofNat (0x050 + (m.registers.get k).toNat % 16 * 5), ?_, ?_⟩
  · rw [UInt16.toNat_ofNat', Nat.mod_eq_of_lt hdigit]
    omega
  · exact Word.execute_encode (i := .pointGlyph k) hpc trivial (by simp) (by simp) id rfl

/-- Drawing a sprite from memory. Its word has room for fifteen rows, which is less than the screen has. -/
theorem execute_draw (a b : Register) {rows : UInt8} (hrows : rows.toNat ≤ 15) (hpc : m.pc.toNat ≤ 0xFFE)
    (hfit : m.index.toNat + rows.toNat ≤ 4096) :
    ∃ next m', (Instruction.draw a b rows).encode.execute m = .ok next m' ∧
      Stamped (m.memory.bytes m.index.toNat rows.toNat) (m.registers.get a).toNat
        (m.registers.get b).toNat m m' := by
  have hlength := m.memory.length_bytes hfit
  have hshort : (m.memory.bytes m.index.toNat rows.toNat).length ≤ screenHeight := by
    simp only [screenHeight]
    omega
  refine ⟨_, _, Word.execute_encode hpc hrows (by simp) (by simp) id (if_pos hfit), ?_⟩
  have hflag : ((Instruction.draw a b rows).change m).registers.get .flag = if _ then 1 else 0 :=
    (Registers.get_set _ _ _ _).trans (if_pos rfl)
  have hone (hit : Bool) : (if hit then (1 : UInt8) else 0) = 1 ↔ hit = true := by
    cases hit <;> decide
  refine ⟨fun p hp q hq => m.screen.pixel_draw_iff_lands hshort hp hq, ?_, ?_⟩
  · rw [hflag]
    exact (hone _).trans (m.screen.hit_draw_iff_lands hshort)
  · rw [hflag]
    split
    · exact .inr rfl
    · exact .inl rfl

/-! ## One after the other -/

/-- The digits of `Vx`, stored and loaded again. -/
theorem digits_loaded (m : Machine) (x : Register) (hpc : m.pc.toNat ≤ 0xFFE)
    (hfit : m.index.toNat + 2 ≤ 4095) :
    ∃ next₁ m₁, (Word.ofByte 0xF x 0x33).execute m = .ok next₁ m₁ ∧
    ∃ next₂ m₂, Word.execute 0xF265 m₁ = .ok next₂ m₂ ∧
      Decimal (m.registers.get x).toNat m₂.registers ∧ m₂.pc = m.pc ∧
      m₂.memory = m.memory.overlay m.index.toNat (decimalDigits (m.registers.get x)) := by
  have hlength : (decimalDigits (m.registers.get x)).length = 3 := rfl
  have hrange : m.index.toNat + 3 ≤ memorySize := Nat.succ_le_succ hfit
  refine ⟨_, _, execute_storeDecimal x hpc hfit, ?_⟩
  refine ⟨_, _, execute_load (x := ⟨2, by decide⟩) hpc hfit, ?_, rfl, rfl⟩
  show Decimal _ (m.registers.overlay 0 (Memory.bytes _ m.index.toNat 3))
  rw [m.memory.bytes_overlay hrange hlength]
  exact decimal_overlay m.registers (m.registers.get x)

/-- The glyph of the digit in `Vk`, pointed at and drawn. -/
theorem glyph_drawn (m : Machine) (k : Register) (hpc : m.pc.toNat ≤ 0xFFE)
    (hglyphs : m.memory.HoldsGlyphs) (hdigit : (m.registers.get k).toNat < 16) :
    ∃ next m', (Word.ofByte 0xF k 0x29).execute m = .ok next m' ∧
      m'.index.toNat = 0x050 + 5 * (m.registers.get k).toNat ∧
    ∀ a b : Register, ∃ next' m'', (Word.ofNibble 0xD a b 5).execute m' = .ok next' m'' ∧
      Stamped (glyph (m.registers.get k).toNat) (m'.registers.get a).toNat (m'.registers.get b).toNat
        m' m'' := by
  obtain ⟨index, hindex, hpoint⟩ := execute_pointGlyph k hpc hdigit
  -- the last glyph ends long before memory does, so the five rows are all there
  refine ⟨_, _, hpoint, hindex, fun a b => ?_⟩
  have hword : (Instruction.draw a b 5).encode = Word.ofNibble 0xD a b 5 := rfl
  have hfive : (5 : UInt8).toNat = 5 := rfl
  have hrows : (5 : UInt8).toNat ≤ 15 := by decide
  have hfit : index.toNat + (5 : UInt8).toNat ≤ 4096 := by omega
  have hsprite : m.memory.bytes index.toNat 5 = glyph (m.registers.get k).toNat := by
    rw [hindex]
    exact hglyphs.bytes_eq hdigit
  have hdraw := execute_draw (m := { m with index := index }) a b hrows hpc hfit
  rwa [hword, hfive, hsprite] at hdraw

/-- From any machine that holds the glyph table, with the index at three cells that are not the table's: storing
the digits of `Vx`, loading them, pointing at the glyph of one of them and drawing it never stops. The digits
are the decimal digits of `Vx`, and what is drawn, anywhere on the screen, is the glyph of the digit. -/
theorem number_displayed (m : Machine) (x : Register) (hpc : m.pc.toNat ≤ 0xFFE)
    (hglyphs : m.memory.HoldsGlyphs) (hfit : m.index.toNat + 2 ≤ 4095)
    (hapart : m.index.toNat + 2 < 0x050 ∨ 0x09F < m.index.toNat) :
    ∃ next₁ m₁, (Word.ofByte 0xF x 0x33).execute m = .ok next₁ m₁ ∧
    ∃ next₂ m₂, Word.execute 0xF265 m₁ = .ok next₂ m₂ ∧
      Decimal (m.registers.get x).toNat m₂.registers ∧
    ∀ k : Register, k.val ≤ 2 → ∃ next₃ m₃, (Word.ofByte 0xF k 0x29).execute m₂ = .ok next₃ m₃ ∧
      m₃.index.toNat = 0x050 + 5 * (m₂.registers.get k).toNat ∧
    ∀ a b : Register, ∃ next₄ m₄, (Word.ofNibble 0xD a b 5).execute m₃ = .ok next₄ m₄ ∧
      Stamped (glyph (m₂.registers.get k).toNat) (m₃.registers.get a).toNat (m₃.registers.get b).toNat
        m₃ m₄ := by
  obtain ⟨next₁, m₁, hstore, next₂, m₂, hload, hdecimal, hpc₂, hmemory⟩ := digits_loaded m x hpc hfit
  refine ⟨next₁, m₁, hstore, next₂, m₂, hload, hdecimal, fun k hk => ?_⟩
  have hlength : (decimalDigits (m.registers.get x)).length = 3 := rfl
  have hglyphs₂ : m₂.memory.HoldsGlyphs := hmemory ▸ hglyphs.overlay (by omega)
  have hnine := hdecimal.le_nine k hk
  exact glyph_drawn m₂ k (hpc₂ ▸ hpc) hglyphs₂ (by omega)

/-- A machine with the glyph table in place, `VF` at 137 and the index past the table. -/
def aboutToShow : Machine :=
  { new .classic (.ofSeed 0) with
    memory := Memory.blank.installGlyphs, registers := Registers.blank.set .flag 137, index := 0x300 }

/-- The middle digit is three, and its glyph is drawn at coordinates that are both in `VF`. -/
theorem number_displayed_middle_digit :
    let one : Register := ⟨1, by decide⟩
    aboutToShow.pc.toNat ≤ 0xFFE ∧ aboutToShow.memory.HoldsGlyphs ∧
      aboutToShow.index.toNat + 2 ≤ 4095 ∧ 0x09F < aboutToShow.index.toNat ∧
      ∃ next₁ m₁, (Word.ofByte 0xF .flag 0x33).execute aboutToShow = .ok next₁ m₁ ∧
      ∃ next₂ m₂, Word.execute 0xF265 m₁ = .ok next₂ m₂ ∧
      ∃ next₃ m₃, (Word.ofByte 0xF one 0x29).execute m₂ = .ok next₃ m₃ ∧
        m₃.index.toNat = 0x050 + 5 * 3 ∧
      ∃ next₄ m₄, (Word.ofNibble 0xD .flag .flag 5).execute m₃ = .ok next₄ m₄ ∧
        Stamped (glyph 3) (m₃.registers.get .flag).toNat (m₃.registers.get .flag).toNat m₃ m₄ := by
  intro one
  have hpc : aboutToShow.pc.toNat ≤ 0xFFE := by decide
  have hglyphs : aboutToShow.memory.HoldsGlyphs := fun k hk =>
    Memory.blank.read_overlay_of_mem glyphTable hk (by
      have hlen : glyphTable.length = 80 := rfl
      simp only [glyphStart, memorySize]
      omega)
  have hfit : aboutToShow.index.toNat + 2 ≤ 4095 := by decide
  have hapart : 0x09F < aboutToShow.index.toNat := by decide
  obtain ⟨next₁, m₁, hstore, next₂, m₂, hload, ⟨hnine, hvalue⟩, hdigit⟩ :=
    number_displayed aboutToShow .flag hpc hglyphs hfit (.inr hapart)
  have hthree : (m₂.registers.get one).toNat = 3 := by
    have hsum : 100 * (m₂.registers.get ⟨0, by decide⟩).toNat + 10 * (m₂.registers.get one).toNat +
        (m₂.registers.get ⟨2, by decide⟩).toNat = 137 := hvalue
    have hmiddle := hnine one (by decide)
    have hlast := hnine ⟨2, by decide⟩ (by decide)
    omega
  obtain ⟨next₃, m₃, hpoint, hindex, hdraw⟩ := hdigit one (by decide)
  obtain ⟨next₄, m₄, hdrawn, hstamped⟩ := hdraw .flag .flag
  rw [hthree] at hindex hstamped
  exact ⟨hpc, hglyphs, hfit, hapart, next₁, m₁, hstore, next₂, m₂, hload, next₃, m₃, hpoint, hindex,
    next₄, m₄, hdrawn, hstamped⟩

end Machine
end Chip8
