import Chip8.Proofs.Sprites

/-!
# How many pixels are lit

Drawing flips one pixel for each set bit of the sprite, so each set bit makes the number of lit pixels one
more or one less: one less exactly where a lit pixel is turned off, which is what the draw tells of. A pixel
that is flipped twice goes up and then down, and is told of too.

* `litCount_toggle`: what flipping one pixel does to the number.
* `litCount_foldl`: a walk over points adds at most their number, always of its parity, and exactly as many
  if and only if no lit pixel is turned off.
* `draw_accounts`: the same of drawing, where the points are the set bits of the sprite.
-/
namespace Chip8

/-- The number of set bits of a sprite. -/
def setBits (sprite : List UInt8) : Nat :=
  ((Finset.range sprite.length ×ˢ Finset.range 8).filter fun bit =>
    spriteBit sprite bit.1 bit.2 = true).card

theorem length_spritePoints (x y : Nat) (sprite : List UInt8) :
    (spritePoints x y sprite).length = setBits sprite := by
  have h := countP_spritePoints (fun _ => true) x y sprite
  rw [List.countP_true] at h
  rw [h]
  simp only [and_true]
  rfl

theorem setBits_pos_iff {sprite : List UInt8} :
    0 < setBits sprite ↔
      ∃ r c, r < sprite.length ∧ c < 8 ∧ spriteBit sprite r c = true := by
  rw [setBits, Finset.card_pos, Finset.filter_nonempty_iff]
  simp [and_assoc]

namespace Screen

/-- Flipping a pixel makes the lit pixels one less where it was lit, and one more where it was dark. -/
theorem litCount_toggle (s : Screen) (x y : Nat) :
    (s.toggle x y).litCount + 2 * (s.pixel x y).toNat = s.litCount + 1 := by
  have hlt : pixelIndex x y < s.pixels.toList.length := by
    rw [Vector.length_toList]
    exact pixelIndex_lt x y
  have hat : s.pixels.toList[pixelIndex x y] = s.pixel x y := by
    rw [Vector.getElem_toList]
    rfl
  unfold litCount toggle
  rw [Vector.toList_set, List.count_set hlt, hat]
  cases hlit : s.pixel x y with
  | true =>
    -- the pixel that is taken away was counted
    have hmem : true ∈ s.pixels.toList := by
      rw [← hlit, ← hat]
      exact List.getElem_mem hlt
    have hpos : 0 < s.pixels.toList.count true := List.count_pos_iff.mpr hmem
    show s.pixels.toList.count true - 1 + 0 + 2 * 1 = s.pixels.toList.count true + 1
    omega
  | false => rfl

/-- Over a walk, the number of lit pixels grows by at most the number of points and by a number of the
same parity; it grows by just that number exactly if no lit pixel is turned off. -/
theorem litCount_foldl (points : List (Nat × Nat)) (st : Screen × Bool) :
    (points.foldl touch st).1.litCount ≤ st.1.litCount + points.length ∧
      (points.foldl touch st).1.litCount % 2 = (st.1.litCount + points.length) % 2 ∧
      ((points.foldl touch st).2 = false ↔
        st.2 = false ∧ (points.foldl touch st).1.litCount = st.1.litCount + points.length) := by
  induction points generalizing st with
  | nil => simp
  | cons point rest ih =>
    have hstep := litCount_toggle st.1 point.1 point.2
    have hfirst : (touch st point).1 = st.1.toggle point.1 point.2 := rfl
    have hhit : (touch st point).2 = (st.2 || st.1.pixel point.1 point.2) := rfl
    obtain ⟨hle, hparity, hexact⟩ := ih (touch st point)
    rw [List.foldl_cons, List.length_cons]
    rw [hfirst] at hle hparity hexact
    rw [hexact, hhit, Bool.or_eq_false_iff]
    cases hlit : st.1.pixel point.1 point.2 with
    | true =>
      -- two behind from here on, and never caught up
      rw [hlit, Bool.toNat_true] at hstep
      refine ⟨by omega, by omega, ?_⟩
      constructor
      · rintro ⟨⟨-, h⟩, -⟩
        cases h
      · rintro ⟨-, h⟩
        omega
    | false =>
      rw [hlit, Bool.toNat_false] at hstep
      refine ⟨by omega, by omega, ?_⟩
      constructor
      · rintro ⟨⟨h, -⟩, hcount⟩
        exact ⟨h, by omega⟩
      · rintro ⟨h, hcount⟩
        exact ⟨⟨h, rfl⟩, by omega⟩

theorem litCount_draw (s : Screen) (x y : Nat) (sprite : List UInt8) :
    (s.draw x y sprite).1.litCount ≤ s.litCount + setBits sprite ∧
      (s.draw x y sprite).1.litCount % 2 = (s.litCount + setBits sprite) % 2 ∧
      ((s.draw x y sprite).2 = false ↔
        (s.draw x y sprite).1.litCount = s.litCount + setBits sprite) := by
  obtain ⟨hle, hparity, hexact⟩ := litCount_foldl (spritePoints x y sprite) (s, false)
  rw [length_spritePoints] at hle hparity hexact
  exact ⟨hle, hparity, hexact.trans (and_iff_right rfl)⟩

/-- Drawing a sprite of any length where no coordinate overflows lights at most as many pixels more as the
sprite has set bits, and of the same parity; it tells of no lit pixel turned off exactly if it lights that
many more. -/
theorem draw_accounts (s : Screen) (x y : UInt64) (sprite : List UInt8) (hfits : Fits x y sprite) :
    ∃ drawn hit, s.drawAt x y sprite = .ok (drawn, hit) ∧
      drawn.litCount ≤ s.litCount + setBits sprite ∧
      drawn.litCount % 2 = (s.litCount + setBits sprite) % 2 ∧
      (hit = false ↔ drawn.litCount = s.litCount + setBits sprite) :=
  ⟨_, _, drawAt_of_fits s hfits, litCount_draw s x.toNat y.toNat sprite⟩

theorem litCount_blank : blank.litCount = 0 := by
  unfold litCount blank
  rw [Vector.toList_replicate, List.count_replicate]
  rfl

/-- A sprite of 33 rows in the last column that a coordinate can name, its last row over its first: the two
bits there cancel, and the draw tells of it. -/
theorem draw_accounts_tall :
    Fits 0xFFFFFFFFFFFFFFFF 31 (List.replicate 33 0x80) ∧
      ∃ drawn, blank.drawAt 0xFFFFFFFFFFFFFFFF 31 (List.replicate 33 0x80) = .ok (drawn, true) ∧
        drawn.litCount < 33 ∧ drawn.litCount % 2 = 1 := by
  have hfits : Fits 0xFFFFFFFFFFFFFFFF 31 (List.replicate 33 0x80) := by decide +kernel
  have hbits : setBits (List.replicate 33 0x80) = 33 := by decide +kernel
  obtain ⟨drawn, hit, hdraw, hle, hparity, hexact⟩ := draw_accounts blank _ _ _ hfits
  rw [hbits, litCount_blank] at hle hparity hexact
  -- the pixel in the last column and row is covered twice
  have htwice : hit = true := by
    have hdrawn := congrArg Prod.snd (Except.ok.inj (hdraw.symm.trans (drawAt_of_fits blank hfits)))
    rw [show hit = _ from hdrawn, hit_draw_iff]
    exact ⟨63, by decide, 31, by decide, by rw [pixel_blank]; decide +kernel⟩
  subst htwice
  refine ⟨hfits, drawn, hdraw, ?_, hparity⟩
  have hne : drawn.litCount ≠ 33 := fun h => by cases hexact.mpr h
  omega

end Screen
end Chip8
