import Chip8.Proofs.LitCount

/-!
# Drawing several sprites

A draw flips the pixels under the points of its sprite, and that is all it does to the screen: flips of
different pixels do not see each other, and two flips of one pixel cancel. So only the points of all draws
together count, as a multiset modulo two. What the draws tell of lit pixels turned off is another matter,
since it is asked in between.

* `toggleAll_perm`, `toggleAll_twice`: a walk in any order, and two walks over the same points.
* `drawAll_of_fits`: a list of draws is a walk over the points of all of them.
* `draw_append`: a sprite cut into an upper and a lower part.
* `draws_commute_and_cancel`: draws in any order, draws repeated, sprites cut, sprites drawn twice.
-/
namespace Chip8

/-- A sprite and the coordinates that its top left is drawn at. -/
structure Placed where
  x : UInt64
  y : UInt64
  sprite : List UInt8

namespace Placed

/-- The points that the draw flips. -/
def points (d : Placed) : List (Nat × Nat) := spritePoints d.x.toNat d.y.toNat d.sprite

/-- No coordinate of the draw overflows. -/
def Fits (d : Placed) : Prop := Screen.Fits d.x d.y d.sprite

instance (d : Placed) : Decidable d.Fits := inferInstanceAs (Decidable (Screen.Fits _ _ _))

end Placed

theorem spritePoints_append (x y : Nat) (top bottom : List UInt8) :
    spritePoints x y (top ++ bottom) = spritePoints x y top ++ spritePoints x (y + top.length) bottom := by
  induction top generalizing y with
  | nil => rfl
  | cons row rest ih =>
    rw [List.cons_append, spritePoints_cons, spritePoints_cons, ih (y + 1), List.append_assoc,
      List.length_cons, Nat.add_assoc, Nat.add_comm 1]

namespace Screen

/-- Draws one sprite after the other. -/
def drawAll (s : Screen) : List Placed → Except Crash Screen
  | [] => .ok s
  | d :: rest => do
    let (drawn, _) ← s.drawAt d.x d.y d.sprite
    drawAll drawn rest

/-- Flips a pixel for each point of a list. -/
def toggleAll (s : Screen) (points : List (Nat × Nat)) : Screen :=
  points.foldl (fun s p => s.toggle p.1 p.2) s

/-- Screens with the same pixels are the same. -/
theorem ext_pixel {s t : Screen} (h : ∀ p q, s.pixel p q = t.pixel p q) : s = t := by
  have hpixels : s.pixels = t.pixels := by
    apply Vector.ext
    intro i hi
    have hindex : pixelIndex (i % screenWidth) (i / screenWidth) = i := by
      simp only [pixelIndex, screenWidth, screenHeight, pixelCount] at hi ⊢
      omega
    have hsame := h (i % screenWidth) (i / screenWidth)
    simp only [pixel, hindex] at hsame
    exact hsame
  cases s
  cases t
  exact congrArg Screen.mk hpixels

/-! ## Walks in another order -/

theorem foldl_touch_fst (points : List (Nat × Nat)) (st : Screen × Bool) :
    (points.foldl touch st).1 = st.1.toggleAll points := by
  induction points generalizing st with
  | nil => rfl
  | cons point rest ih =>
    rw [List.foldl_cons, ih]
    rfl

theorem foldl_touch_snd (points : List (Nat × Nat)) (st : Screen × Bool) :
    (points.foldl touch st).2 = (st.2 || (points.foldl touch (st.1, false)).2) := by
  rw [Bool.eq_iff_iff, Bool.or_eq_true, hit_foldl_iff, hit_foldl_iff]
  simp only [Bool.false_eq_true, false_or]

theorem pixel_toggleAll (s : Screen) (points : List (Nat × Nat)) (p q : Nat) :
    (s.toggleAll points).pixel p q =
      (s.pixel p q ^^ decide (points.countP (onPixel p q) % 2 = 1)) := by
  rw [← pixel_foldl points (s, false), foldl_touch_fst]

theorem toggleAll_append (s : Screen) (points points' : List (Nat × Nat)) :
    s.toggleAll (points ++ points') = (s.toggleAll points).toggleAll points' :=
  List.foldl_append

/-- The order of the points is of no account. -/
theorem toggleAll_perm (s : Screen) {points points' : List (Nat × Nat)} (h : points.Perm points') :
    s.toggleAll points = s.toggleAll points' := by
  apply ext_pixel
  intro p q
  rw [pixel_toggleAll, pixel_toggleAll, h.countP_eq]

/-- Walking twice over the same points changes nothing. -/
theorem toggleAll_twice (s : Screen) (points : List (Nat × Nat)) :
    (s.toggleAll points).toggleAll points = s := by
  apply ext_pixel
  intro p q
  rw [pixel_toggleAll, pixel_toggleAll, Bool.xor_assoc, Bool.xor_self, Bool.xor_false]

/-! ## Draws -/

theorem draw_fst (s : Screen) (x y : Nat) (sprite : List UInt8) :
    (s.draw x y sprite).1 = s.toggleAll (spritePoints x y sprite) :=
  foldl_touch_fst _ _

theorem drawAll_of_fits (s : Screen) {ds : List Placed} (h : ∀ d ∈ ds, d.Fits) :
    s.drawAll ds = .ok (s.toggleAll (ds.flatMap Placed.points)) := by
  induction ds generalizing s with
  | nil => rfl
  | cons d rest ih =>
    obtain ⟨hd, hrest⟩ := List.forall_mem_cons.mp h
    rw [drawAll, drawAt_of_fits s hd, List.flatMap_cons, toggleAll_append]
    change drawAll (s.draw d.x.toNat d.y.toNat d.sprite).1 rest = _
    rw [ih _ hrest, draw_fst]
    rfl

/-- Drawing a sprite is drawing its upper part and then, below it, its lower part. -/
theorem draw_append (s : Screen) (x y : Nat) (top bottom : List UInt8) :
    let upper := s.draw x y top
    let whole := upper.1.draw x (y + top.length) bottom
    s.draw x y (top ++ bottom) = (whole.1, upper.2 || whole.2) := by
  intro upper whole
  have hwalk : s.draw x y (top ++ bottom) =
      (spritePoints x (y + top.length) bottom).foldl touch upper := by
    rw [draw, spritePoints_append, List.foldl_append]
    rfl
  rw [hwalk]
  refine Prod.ext ?_ (foldl_touch_snd _ upper)
  rw [foldl_touch_fst, ← draw_fst]

/-- A sprite drawn twice in one place leaves the screen as it was. -/
theorem draw_twice_fst (s : Screen) (x y : Nat) (sprite : List UInt8) :
    ((s.draw x y sprite).1.draw x y sprite).1 = s := by
  rw [draw_fst, draw_fst, toggleAll_twice]

/-- Of two draws of a sprite in one place at least one turns a lit pixel off, if the sprite has a set bit:
what the first lights, the second turns off. -/
theorem draw_twice_snd (s : Screen) (x y : Nat) (sprite : List UInt8) :
    ((s.draw x y sprite).2 || ((s.draw x y sprite).1.draw x y sprite).2) = true ↔
      0 < setBits sprite := by
  obtain ⟨hle, -, hexact⟩ := litCount_draw s x y sprite
  obtain ⟨hle', -, hexact'⟩ := litCount_draw (s.draw x y sprite).1 x y sprite
  rw [draw_twice_fst] at hle' hexact'
  -- without a lit pixel turned off, both draws would add all bits, and the second ends where the first began
  have hneither : (s.draw x y sprite).2 = false ∧ ((s.draw x y sprite).1.draw x y sprite).2 = false ↔
      setBits sprite = 0 := by
    rw [hexact, hexact']
    omega
  rw [← Bool.not_eq_false, Bool.or_eq_false_iff, hneither]
  omega

/-! ## Coordinates that can overflow -/

/-- One screen is what draws in any order lead to, and what any order of them leads back from. -/
theorem drawAll_perm (s : Screen) {ds : List Placed} (h : ∀ d ∈ ds, d.Fits) :
    ∃ drawn, ∀ ds' : List Placed, ds'.Perm ds →
      s.drawAll ds' = .ok drawn ∧ drawn.drawAll ds' = .ok s := by
  refine ⟨s.toggleAll (ds.flatMap Placed.points), fun ds' hperm => ?_⟩
  have hpoints : (ds'.flatMap Placed.points).Perm (ds.flatMap Placed.points) := hperm.flatMap_right _
  have hfits : ∀ d ∈ ds', d.Fits := fun d hd => h d (hperm.mem_iff.mp hd)
  rw [drawAll_of_fits s hfits, drawAll_of_fits _ hfits, toggleAll_perm _ hpoints,
    toggleAll_perm _ hpoints, toggleAll_twice]
  exact ⟨rfl, rfl⟩

theorem fits_append_iff {x y : UInt64} {top bottom : List UInt8} :
    Fits x y (top ++ bottom) ↔
      y.toNat + top.length + bottom.length ≤ coordinateLimit ∧
        (∀ row ∈ top, ∀ c ∈ spriteColumns row, x.toNat + c < coordinateLimit) ∧
        ∀ row ∈ bottom, ∀ c ∈ spriteColumns row, x.toNat + c < coordinateLimit := by
  rw [Fits, List.length_append, List.forall_mem_append, Nat.add_assoc]

theorem drawAt_append (s : Screen) {x y y' : UInt64} {top bottom : List UInt8}
    (h : Fits x y (top ++ bottom)) (hy' : y'.toNat = y.toNat + top.length) :
    ∃ upper whole hit hit', s.drawAt x y top = .ok (upper, hit) ∧
      upper.drawAt x y' bottom = .ok (whole, hit') ∧
      s.drawAt x y (top ++ bottom) = .ok (whole, hit || hit') := by
  obtain ⟨hrows, htop, hbottom⟩ := fits_append_iff.mp h
  have hupper : Fits x y top := ⟨by omega, htop⟩
  have hlower : Fits x y' bottom := ⟨by omega, hbottom⟩
  refine ⟨_, _, (s.draw x.toNat y.toNat top).2, _, drawAt_of_fits s hupper,
    drawAt_of_fits _ hlower, ?_⟩
  rw [drawAt_of_fits s h, draw_append, hy']
  rfl

theorem drawAt_twice (s : Screen) {x y : UInt64} {sprite : List UInt8} (h : Fits x y sprite) :
    ∃ once hit hit', s.drawAt x y sprite = .ok (once, hit) ∧
      once.drawAt x y sprite = .ok (s, hit') ∧
      ((hit || hit') = true ↔
        ∃ r c, r < sprite.length ∧ c < 8 ∧ spriteBit sprite r c = true) := by
  have hagain : (s.draw x.toNat y.toNat sprite).1.drawAt x y sprite =
      .ok (s, ((s.draw x.toNat y.toNat sprite).1.draw x.toNat y.toNat sprite).2) := by
    rw [drawAt_of_fits _ h]
    exact congrArg Except.ok (Prod.ext (draw_twice_fst s _ _ sprite) rfl)
  refine ⟨_, (s.draw x.toNat y.toNat sprite).2, _, drawAt_of_fits s h, hagain, ?_⟩
  rw [draw_twice_snd, setBits_pos_iff]

/-- Draws where no coordinate overflows can be done in any order, and doing all of them again in any order
brings the screen back. A sprite may be cut into an upper and a lower part, each drawn in its place: the
pixels are those of the whole, and the whole tells of a lit pixel turned off exactly if one part does.
And of two draws of one sprite in one place at least one tells of it exactly if the sprite has a set
bit, however many rows it has. -/
theorem draws_commute_and_cancel (s : Screen) :
    (∀ ds : List Placed, (∀ d ∈ ds, d.Fits) →
      ∃ drawn, ∀ ds' : List Placed, ds'.Perm ds →
        s.drawAll ds' = .ok drawn ∧ drawn.drawAll ds' = .ok s) ∧
    (∀ (x y y' : UInt64) (top bottom : List UInt8), Fits x y (top ++ bottom) →
      y'.toNat = y.toNat + top.length →
      ∃ upper whole hit hit', s.drawAt x y top = .ok (upper, hit) ∧
        upper.drawAt x y' bottom = .ok (whole, hit') ∧
        s.drawAt x y (top ++ bottom) = .ok (whole, hit || hit')) ∧
    ∀ (x y : UInt64) (sprite : List UInt8), Fits x y sprite →
      ∃ once hit hit', s.drawAt x y sprite = .ok (once, hit) ∧
        once.drawAt x y sprite = .ok (s, hit') ∧
        ((hit || hit') = true ↔
          ∃ r c, r < sprite.length ∧ c < 8 ∧ spriteBit sprite r c = true) :=
  ⟨fun _ hds => drawAll_perm s hds, fun _ _ _ _ _ hfits hy' => drawAt_append s hfits hy',
    fun _ _ _ hfits => drawAt_twice s hfits⟩

/-- Two overlapping sprites over the corner of the screen, in both orders and back, and the first of them
in two parts and twice. -/
theorem draws_commute_and_cancel_corner :
    let corner : Placed := ⟨62, 31, [0xF0, 0x80]⟩
    let edge : Placed := ⟨63, 0, [0xFF]⟩
    (∃ drawn, blank.drawAll [corner, edge] = .ok drawn ∧ blank.drawAll [edge, corner] = .ok drawn ∧
      drawn.drawAll [edge, corner] = .ok blank) ∧
    (∃ upper whole hit hit', blank.drawAt 62 31 [0xF0] = .ok (upper, hit) ∧
      upper.drawAt 62 32 [0x80] = .ok (whole, hit') ∧
      blank.drawAt 62 31 [0xF0, 0x80] = .ok (whole, hit || hit')) ∧
    ∃ once hit hit', blank.drawAt 62 31 [0xF0, 0x80] = .ok (once, hit) ∧
      once.drawAt 62 31 [0xF0, 0x80] = .ok (blank, hit') ∧ (hit || hit') = true := by
  intro corner edge
  have hfits : ∀ d ∈ [corner, edge], d.Fits :=
    List.forall_mem_cons.mpr ⟨by decide +kernel, List.forall_mem_singleton.mpr (by decide +kernel)⟩
  obtain ⟨hany, hcut, htwice⟩ := draws_commute_and_cancel blank
  obtain ⟨drawn, hdrawn⟩ := hany [corner, edge] hfits
  have hswap : [edge, corner].Perm [corner, edge] := .swap _ _ _
  refine ⟨⟨drawn, (hdrawn _ (.refl _)).1, hdrawn _ hswap⟩, ?_, ?_⟩
  · exact hcut 62 31 32 [0xF0] [0x80] (by decide +kernel) (by decide)
  · obtain ⟨once, hit, hit', h, h', hiff⟩ := htwice 62 31 [0xF0, 0x80] (by decide +kernel)
    exact ⟨once, hit, hit', h, h', hiff.mpr ⟨0, 0, by decide, by decide, by decide⟩⟩

end Screen
end Chip8
