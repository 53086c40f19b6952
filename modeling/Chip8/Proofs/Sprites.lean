import Chip8.Screen
import Mathlib.Algebra.BigOperators.Group.Finset.Piecewise
import Mathlib.Algebra.BigOperators.Group.Finset.Sigma

/-!
# What drawing a sprite does to each pixel

Drawing walks over the set bits of a sprite and flips the pixel under each one. A tall sprite comes back
to rows that it has already flipped, so one pixel may be flipped several times, and whether a lit pixel
was turned off is asked of a screen that is already partly drawn on.

`coverage` counts the set bits that land on a pixel. It is all that matters of the sprite:

* `pixel_foldl`: a walk over points flips a pixel once for each point on it.
* `hit_foldl_iff`: it turns a lit pixel off exactly if some pixel is lit or covered twice or more,
  counting both.
* `draw_by_coverage`: so drawing is the exclusive or with the parity of the coverage.
-/
namespace Chip8

/-- The bit of a sprite in row `r` and column `c`, counted from the top left. -/
def spriteBit (sprite : List UInt8) (r c : Nat) : Bool := (sprite.getD r 0).toNat.testBit (7 - c)

/-- The number of set bits of a sprite at `(x, y)` that land on the pixel in column `p` and row `q`: a
bit is a row and a column of the sprite. -/
def coverage (x y : Nat) (sprite : List UInt8) (p q : Nat) : Nat :=
  ((Finset.range sprite.length ×ˢ Finset.range 8).filter fun bit =>
    spriteBit sprite bit.1 bit.2 = true ∧
      (x + bit.2) % screenWidth = p ∧ (y + bit.1) % screenHeight = q).card

/-- Whether a point lies on the pixel in column `p` and row `q`. -/
def onPixel (p q : Nat) (point : Nat × Nat) : Bool :=
  decide (pixelIndex point.1 point.2 = pixelIndex p q)

theorem pixelIndex_eq_iff {x y p q : Nat} :
    pixelIndex x y = pixelIndex p q ↔
      x % screenWidth = p % screenWidth ∧ y % screenHeight = q % screenHeight := by
  simp only [pixelIndex, screenHeight, screenWidth]
  omega

theorem pixelIndex_mod (p q : Nat) : pixelIndex (p % screenWidth) (q % screenHeight) = pixelIndex p q := by
  simp only [pixelIndex, Nat.mod_mod]

theorem onPixel_iff {p q : Nat} (hp : p < screenWidth) (hq : q < screenHeight) (x y : Nat) :
    onPixel p q (x, y) = true ↔ x % screenWidth = p ∧ y % screenHeight = q := by
  rw [onPixel, decide_eq_true_eq, pixelIndex_eq_iff, Nat.mod_eq_of_lt hp, Nat.mod_eq_of_lt hq]

/-! ## The points of a sprite -/

theorem spritePoints_cons (x y : Nat) (row : UInt8) (rest : List UInt8) :
    spritePoints x y (row :: rest) =
      (spriteColumns row).map (fun c => (x + c, y)) ++ spritePoints x (y + 1) rest := by
  have hshift : ∀ (rows : List UInt8) (k : Nat),
      (rows.zipIdx (k + 1)).flatMap (fun e => (spriteColumns e.1).map fun c => (x + c, y + e.2)) =
        (rows.zipIdx k).flatMap fun e => (spriteColumns e.1).map fun c => (x + c, y + 1 + e.2) := by
    intro rows
    induction rows with
    | nil => intro k; rfl
    | cons b bs ih =>
      intro k
      simp only [List.zipIdx_cons, List.flatMap_cons, ih (k + 1)]
      rw [show y + (k + 1) = y + 1 + k by omega]
  unfold spritePoints
  rw [List.zipIdx_cons, List.flatMap_cons]
  exact congrArg (_ ++ ·) (hshift rest 0)

/-- The points of one row with a property are as many as the set bits of the row whose point has it. -/
theorem countP_row (P : Nat × Nat → Bool) (x y : Nat) (row : UInt8) :
    ((spriteColumns row).map fun c => (x + c, y)).countP P =
      ((Finset.range 8).filter fun c =>
        row.toNat.testBit (7 - c) = true ∧ P (x + c, y) = true).card := by
  rw [List.countP_map, spriteColumns, List.countP_filter, List.countP_eq_length_filter]
  change _ = ((List.range 8).filter _).length
  congr 1
  refine List.filter_congr fun c _ => ?_
  rw [Bool.eq_iff_iff]
  simp only [Function.comp_apply, Bool.and_eq_true, decide_eq_true_eq]
  exact And.comm

/-- The points of a sprite with a property are as many as its set bits whose point has it. -/
theorem countP_spritePoints (P : Nat × Nat → Bool) (x y : Nat) (sprite : List UInt8) :
    (spritePoints x y sprite).countP P =
      ((Finset.range sprite.length ×ˢ Finset.range 8).filter fun bit =>
        spriteBit sprite bit.1 bit.2 = true ∧ P (x + bit.2, y + bit.1) = true).card := by
  rw [Finset.card_filter, Finset.sum_product]
  induction sprite generalizing y with
  | nil => rfl
  | cons row rest ih =>
    rw [spritePoints_cons, List.countP_append, ih (y + 1), List.length_cons, Finset.sum_range_succ',
      Nat.add_comm]
    congr 1
    · -- row `r` of the rest is row `r + 1` of the whole
      refine Finset.sum_congr rfl fun r _ => ?_
      simp only [show y + (r + 1) = y + 1 + r by omega]
      rfl
    · rw [countP_row, Finset.card_filter]
      rfl

/-- The points of a sprite on a pixel are as many as its coverage. -/
theorem countP_onPixel (x y : Nat) (sprite : List UInt8) {p q : Nat} (hp : p < screenWidth)
    (hq : q < screenHeight) :
    (spritePoints x y sprite).countP (onPixel p q) = coverage x y sprite p q := by
  rw [countP_spritePoints]
  simp only [onPixel_iff hp hq]
  rfl

namespace Screen

/-! ## Walks over points -/

theorem pixel_toggle (s : Screen) (x y p q : Nat) :
    (s.toggle x y).pixel p q = (s.pixel p q ^^ onPixel p q (x, y)) := by
  have hset : (s.toggle x y).pixel p q =
      if pixelIndex x y = pixelIndex p q then !s.pixel x y else s.pixel p q :=
    Vector.getElem_set (pixelIndex_lt x y) (pixelIndex_lt p q)
  rw [hset]
  by_cases h : pixelIndex x y = pixelIndex p q
  · simp [pixel, onPixel, h]
  · simp [onPixel, h]

/-- A walk flips a pixel once for each point on it. -/
theorem pixel_foldl (points : List (Nat × Nat)) (st : Screen × Bool) (p q : Nat) :
    (points.foldl touch st).1.pixel p q =
      (st.1.pixel p q ^^ decide (points.countP (onPixel p q) % 2 = 1)) := by
  induction points generalizing st with
  | nil => simp
  | cons c rest ih =>
    rw [List.foldl_cons, ih, List.countP_cons]
    change ((st.1.toggle c.1 c.2).pixel p q ^^ _) = _
    rw [pixel_toggle, Bool.xor_assoc]
    congr 1
    cases onPixel p q c with
    | false => simp
    | true =>
      rcases Nat.mod_two_eq_zero_or_one (rest.countP (onPixel p q)) with h | h <;>
        simp [h, Nat.add_mod]

theorem pixel_eq_of_onPixel {p q : Nat} {point : Nat × Nat} (s : Screen)
    (h : onPixel p q point = true) : s.pixel p q = s.pixel point.1 point.2 := by
  simp only [onPixel, decide_eq_true_eq] at h
  simp only [pixel, h]

/-- A walk turns a lit pixel off exactly if the pixel counts twice or more, once for being lit and once
for each point on it. -/
theorem hit_foldl_iff (points : List (Nat × Nat)) (st : Screen × Bool) :
    (points.foldl touch st).2 = true ↔
      st.2 = true ∨ ∃ p q, 2 ≤ (st.1.pixel p q).toNat + points.countP (onPixel p q) := by
  induction points generalizing st with
  | nil =>
    simp only [List.foldl_nil, List.countP_nil, Nat.add_zero, iff_self_or]
    rintro ⟨p, q, h⟩
    have := (st.1.pixel p q).toNat_le
    omega
  | cons c rest ih =>
    have hself : onPixel c.1 c.2 c = true := decide_eq_true rfl
    rw [List.foldl_cons, ih]
    change (st.2 || st.1.pixel c.1 c.2) = true ∨
      (∃ p q, 2 ≤ ((st.1.toggle c.1 c.2).pixel p q).toNat + _) ↔ _
    cases hlit : st.1.pixel c.1 c.2 with
    | true =>
      -- turned off by this very point, and counted twice for it
      have htwice : 2 ≤ (st.1.pixel c.1 c.2).toNat + (c :: rest).countP (onPixel c.1 c.2) := by
        rw [hlit, List.countP_cons, hself]
        simp only [Bool.toNat_true, if_true]
        omega
      exact ⟨fun _ => .inr ⟨c.1, c.2, htwice⟩, fun _ => .inl (Bool.or_true _)⟩
    | false =>
      -- lit by this point, which moves its count from the points to the screen
      have hmove : ∀ p q, ((st.1.toggle c.1 c.2).pixel p q).toNat + rest.countP (onPixel p q) =
          (st.1.pixel p q).toNat + (c :: rest).countP (onPixel p q) := by
        intro p q
        rw [pixel_toggle, List.countP_cons]
        cases hon : onPixel p q c with
        | false => simp
        | true => simp [pixel_eq_of_onPixel st.1 hon, hlit, Nat.add_comm]
      simp only [hmove, Bool.or_false]

/-! ## Drawing -/

theorem pixel_draw (s : Screen) (x y : Nat) (sprite : List UInt8) {p q : Nat}
    (hp : p < screenWidth) (hq : q < screenHeight) :
    (s.draw x y sprite).1.pixel p q =
      (s.pixel p q ^^ decide (coverage x y sprite p q % 2 = 1)) := by
  rw [draw, pixel_foldl, countP_onPixel x y sprite hp hq]

theorem hit_draw_iff (s : Screen) (x y : Nat) (sprite : List UInt8) :
    (s.draw x y sprite).2 = true ↔ ∃ p < screenWidth, ∃ q < screenHeight,
      2 ≤ (s.pixel p q).toNat + coverage x y sprite p q := by
  rw [draw, hit_foldl_iff]
  simp only [Bool.false_eq_true, false_or]
  constructor
  · rintro ⟨p, q, h⟩
    have hp : p % screenWidth < screenWidth := Nat.mod_lt _ (by decide)
    have hq : q % screenHeight < screenHeight := Nat.mod_lt _ (by decide)
    refine ⟨_, hp, _, hq, ?_⟩
    rw [← countP_onPixel x y sprite hp hq]
    have hpixel : s.pixel (p % screenWidth) (q % screenHeight) = s.pixel p q := by
      simp only [pixel, pixelIndex_mod]
    have hon : onPixel (p % screenWidth) (q % screenHeight) = onPixel p q := by
      funext point
      simp only [onPixel, pixelIndex_mod]
    rwa [hpixel, hon]
  · rintro ⟨p, hp, q, hq, h⟩
    refine ⟨p, q, ?_⟩
    rwa [countP_onPixel x y sprite hp hq]

/-- No row and no set bit of a sprite at `(x, y)` has a coordinate that overflows. -/
def Fits (x y : UInt64) (sprite : List UInt8) : Prop :=
  y.toNat + sprite.length ≤ coordinateLimit ∧
    ∀ row ∈ sprite, ∀ c ∈ spriteColumns row, x.toNat + c < coordinateLimit

instance (x y : UInt64) (sprite : List UInt8) : Decidable (Fits x y sprite) :=
  inferInstanceAs (Decidable (_ ∧ _))

/-- `drawAt` draws where no coordinate overflows. -/
theorem drawAt_of_fits (s : Screen) {x y : UInt64} {sprite : List UInt8} (h : Fits x y sprite) :
    s.drawAt x y sprite = .ok (s.draw x.toNat y.toNat sprite) := by
  have hall : (spritePoints x.toNat y.toNat sprite).all (fun p => decide (p.1 < coordinateLimit)) := by
    simp only [List.all_eq_true, decide_eq_true_eq, spritePoints, List.mem_flatMap, List.mem_map,
      Prod.exists]
    rintro _ ⟨row, r, hr, c, hc, rfl⟩
    exact h.2 row (List.fst_mem_of_mem_zipIdx hr) c hc
  rw [drawAt, if_pos ⟨h.1, hall⟩]

theorem drawAt_eq (s : Screen) {x y : UInt64} {sprite : List UInt8}
    (hx : x.toNat + 7 < coordinateLimit) (hy : y.toNat + sprite.length ≤ coordinateLimit) :
    s.drawAt x y sprite = .ok (s.draw x.toNat y.toNat sprite) := by
  refine drawAt_of_fits s ⟨hy, fun row _ c hc => ?_⟩
  have hlt : c < 8 := List.mem_range.mp (List.mem_filter.mp hc).1
  omega

/-- Drawing a sprite of any length where no coordinate overflows makes each pixel the exclusive or of
what it was and the parity of its coverage; and it tells of a lit pixel turned off exactly if some pixel
counts twice or more, once for being lit before and once for each set bit that lands on it. -/
theorem draw_by_coverage (s : Screen) (x y : UInt64) (sprite : List UInt8)
    (hx : x.toNat + 7 < coordinateLimit) (hy : y.toNat + sprite.length ≤ coordinateLimit) :
    ∃ drawn hit, s.drawAt x y sprite = .ok (drawn, hit) ∧
      (∀ p < screenWidth, ∀ q < screenHeight,
        drawn.pixel p q =
          (s.pixel p q ^^ decide (coverage x.toNat y.toNat sprite p q % 2 = 1))) ∧
      (hit = true ↔ ∃ p < screenWidth, ∃ q < screenHeight,
        (if s.pixel p q then 1 else 0) + coverage x.toNat y.toNat sprite p q ≥ 2) := by
  refine ⟨(s.draw x.toNat y.toNat sprite).1, (s.draw x.toNat y.toNat sprite).2, drawAt_eq s hx hy,
    fun p hp q hq => pixel_draw s _ _ _ hp hq, ?_⟩
  have hlit : ∀ b : Bool, (if b then 1 else 0) = b.toNat := fun b => by cases b <;> rfl
  rw [hit_draw_iff]
  simp only [hlit, ge_iff_le]

theorem pixel_blank (p q : Nat) : blank.pixel p q = false := Vector.getElem_replicate (pixelIndex_lt p q)

/-- A sprite of 33 rows on a dark screen, its last row over its first: the pixel of both is dark again,
that of the second row is lit. -/
theorem draw_by_coverage_tall :
    (62 : UInt64).toNat + 7 < coordinateLimit ∧
      (31 : UInt64).toNat + (List.replicate 33 (0x80 : UInt8)).length ≤ coordinateLimit ∧
      ∃ drawn, blank.drawAt 62 31 (List.replicate 33 0x80) = .ok (drawn, true) ∧
        drawn.pixel 62 31 = false ∧ drawn.pixel 62 0 = true := by
  have hx : (62 : UInt64).toNat + 7 < coordinateLimit := by decide
  have hy : (31 : UInt64).toNat + (List.replicate 33 (0x80 : UInt8)).length ≤ coordinateLimit := by
    decide
  obtain ⟨drawn, hit, hdraw, hpixel, hhit⟩ :=
    draw_by_coverage blank 62 31 (List.replicate 33 0x80) hx hy
  have hfirst : coverage (62 : UInt64).toNat (31 : UInt64).toNat (List.replicate 33 0x80) 62 31 = 2 := by
    decide +kernel
  have hsecond : coverage (62 : UInt64).toNat (31 : UInt64).toNat (List.replicate 33 0x80) 62 0 = 1 := by
    decide +kernel
  have hturned : hit = true := hhit.mpr ⟨62, by decide, 31, by decide, by rw [hfirst, pixel_blank]; decide⟩
  refine ⟨hx, hy, drawn, by rw [hdraw, hturned], ?_, ?_⟩
  · rw [hpixel 62 (by decide) 31 (by decide), hfirst, pixel_blank]
    rfl
  · rw [hpixel 62 (by decide) 0 (by decide), hsecond, pixel_blank]
    rfl

end Screen
end Chip8
