import Chip8.Proofs.LiveOutput
import Mathlib.Data.List.Induction

/-!
# How pixels fade

An update of an afterglow goes to all pixels, and each of them sees only whether it is lit and how long the update
lasts. That is its history, and of its history only what came after it was last lit matters: fading starts over each
time.

* `Afterglow.glowAt_play`: the glow of a pixel is made from its history, update by update.
* `Glow.Told`: what a history comes to. `told_concat`: one more update; `told_follow`: whole histories.
* `Glow.follow_of_sameSinceLit`: histories that are the same since the pixel was last lit.
* `Afterglow.afterglow_tells_history`: these together, for the pixels of any afterglow.
-/
namespace Chip8

namespace Glow

/-- The single-precision number beyond all bounds. -/
def infinity : Float32 := Float32.ofBits 0x7F800000

/-- How much a pixel has aged that has faded for some stretches of time, after the one in which it was erased. -/
def ageAfter (decay : Float32) (times : List Float32) : Float32 :=
  times.foldl (fun age seconds => age + if decay > 0.0 then seconds / decay else infinity) 0.0

/-- The entries of a history in which the pixel is erased and then stays so for some stretches of time. -/
def erased (seconds : Float32) (times : List Float32) : List (Bool × Float32) :=
  (false, seconds) :: times.map (false, ·)

/-- The glow and the intensity that a history comes to. A history has an entry for each update: whether the pixel is
lit, and the seconds. -/
inductive Told (decay : Float32) : List (Bool × Float32) → Glow → Float32 → Prop
  | never {history : List (Bool × Float32)} (hdark : ∀ u ∈ history, u.1 = false) : Told decay history .dark 0.0
  | lit {before : List (Bool × Float32)} {s : Float32} : Told decay (before ++ [(true, s)]) .lit 1.0
  | fading {before : List (Bool × Float32)} {s s' : Float32} {times : List Float32}
    (hyoung : ∀ k < times.length, ¬ ageAfter decay (times.take k) ≥ 1.0) :
    Told decay (before ++ (true, s) :: erased s' times) (.fading (ageAfter decay times))
      (intensityAtAge (ageAfter decay times))
  /-- Once the age has reached one, the next update makes the pixel dark. -/
  | gone {before : List (Bool × Float32)} {s s' : Float32} {times : List Float32} {k : Nat}
    (hk : k < times.length) (hold : ageAfter decay (times.take k) ≥ 1.0) :
    Told decay (before ++ (true, s) :: erased s' times) .dark 0.0

/-- Histories that are the same from when the pixel was last lit on, or in neither of which it ever was. -/
def SameSinceLit (history history' : List (Bool × Float32)) : Prop :=
  ((∀ u ∈ history, u.1 = false) ∧ ∀ u ∈ history', u.1 = false) ∨
    ∃ before before' s s' later, history = before ++ (true, s) :: later ∧ history' = before' ++ (true, s') :: later

/-- The glow after a history that begins with a given glow. -/
def follow (decay : Float32) (g : Glow) (history : List (Bool × Float32)) : Glow :=
  history.foldl (fun g u => g.next u.1 (Afterglow.aging decay u.2)) g

variable {decay : Float32} {history history' : List (Bool × Float32)} {g : Glow} {b : Float32}

theorem follow_append (decay : Float32) (g : Glow) (history history' : List (Bool × Float32)) :
    g.follow decay (history ++ history') = (g.follow decay history).follow decay history' := List.foldl_append

/-- A pixel that is lit has forgotten what was before. -/
theorem follow_lit (decay : Float32) (g : Glow) (before later : List (Bool × Float32)) (s : Float32) :
    g.follow decay (before ++ (true, s) :: later) = Glow.lit.follow decay later := follow_append ..

theorem follow_dark (h : ∀ u ∈ history, u.1 = false) : Glow.dark.follow decay history = .dark := by
  induction history with
  | nil => rfl
  | cons u rest ih =>
    obtain ⟨hu, hrest⟩ := List.forall_mem_cons.mp h
    have hnext : Glow.dark.next u.1 (Afterglow.aging decay u.2) = .dark := by
      rw [hu]
      rfl
    rw [follow, List.foldl_cons, hnext]
    exact ih hrest

theorem follow_of_sameSinceLit (h : SameSinceLit history history') :
    Glow.dark.follow decay history = Glow.dark.follow decay history' := by
  rcases h with ⟨hdark, hdark'⟩ | ⟨before, before', s, s', later, rfl, rfl⟩
  · rw [follow_dark hdark, follow_dark hdark']
  · rw [follow_lit, follow_lit]

theorem aging_eq (decay seconds : Float32) :
    Afterglow.aging decay seconds = if decay > 0.0 then seconds / decay else infinity := by
  have hinfinity : (1.0 / 0.0 : Float32) = infinity := by decide +kernel
  rw [Afterglow.aging, hinfinity]

theorem ageAfter_concat (decay : Float32) (times : List Float32) (seconds : Float32) :
    ageAfter decay (times ++ [seconds]) = ageAfter decay times + Afterglow.aging decay seconds := by
  rw [ageAfter, List.foldl_append, aging_eq]
  rfl

theorem told_concat (h : Told decay history g b) (u : Bool × Float32) :
    Told decay (history ++ [u]) (g.next u.1 (Afterglow.aging decay u.2))
      (g.next u.1 (Afterglow.aging decay u.2)).intensity := by
  obtain ⟨isLit, seconds⟩ := u
  cases isLit with
  | true => exact .lit
  | false =>
    have happend (before : List (Bool × Float32)) (s s' : Float32) (times : List Float32) :
        before ++ (true, s) :: erased s' times ++ [(false, seconds)] =
          before ++ (true, s) :: erased s' (times ++ [seconds]) := by simp [erased]
    have htake {times : List Float32} {k : Nat} (hk : k ≤ times.length) :
        (times ++ [seconds]).take k = times.take k := List.take_append_of_le_length hk
    have hlength (times : List Float32) : (times ++ [seconds]).length = times.length + 1 := by simp
    cases h with
    | never hdark =>
      refine .never fun u hu => ?_
      rcases List.mem_append.mp hu with hu | hu
      · exact hdark u hu
      · rw [List.mem_singleton.mp hu]
    | @lit before s =>
      have hyoung : ∀ k < ([] : List Float32).length, ¬ ageAfter decay (([] : List Float32).take k) ≥ 1.0 :=
        fun k hk => absurd hk (Nat.not_lt_zero k)
      rw [List.append_assoc]
      exact .fading hyoung
    | @fading before s s' times hyoung =>
      rw [happend]
      have hage : Glow.next (.fading (ageAfter decay times)) false (Afterglow.aging decay seconds) =
          if ageAfter decay times ≥ 1.0 then .dark else .fading (ageAfter decay (times ++ [seconds])) := by
        rw [ageAfter_concat]
        rfl
      rw [hage]
      by_cases hold : ageAfter decay times ≥ 1.0
      · rw [if_pos hold]
        refine .gone (k := times.length) (by rw [hlength]; exact Nat.lt_succ_self _) ?_
        rwa [htake (Nat.le_refl _), List.take_length]
      · rw [if_neg hold]
        refine .fading fun k hk => ?_
        rw [hlength] at hk
        rw [htake (Nat.le_of_lt_succ hk)]
        rcases Nat.lt_succ_iff_lt_or_eq.mp hk with hk | rfl
        · exact hyoung k hk
        · rw [List.take_length]
          exact hold
    | @gone before s s' times k hk hold =>
      rw [happend]
      refine .gone (k := k) (by rw [hlength]; exact Nat.lt_succ_of_lt hk) ?_
      rwa [htake (Nat.le_of_lt hk)]

/-- A history comes to what the pixel does update by update. -/
theorem told_follow (decay : Float32) (history : List (Bool × Float32)) :
    Told decay history (Glow.dark.follow decay history) (Glow.dark.follow decay history).intensity := by
  induction history using List.reverseRecOn with
  | nil => exact .never fun u hu => by cases hu
  | append_singleton before u ih =>
    rw [follow_append]
    exact told_concat ih u

end Glow

namespace Afterglow

/-- Updates one after the other: the screens that are shown, and the seconds before each. -/
def play (a : Afterglow) (updates : List (Screen × Float32)) : Afterglow :=
  updates.foldl (fun a u => a.update u.1 u.2) a

/-- What some updates mean for one pixel. -/
def history (x y : Nat) (updates : List (Screen × Float32)) : List (Bool × Float32) :=
  updates.map fun u => (u.1.pixel x y, u.2)

/-- The glow of the pixel at coordinates taken modulo the screen size. -/
def glowAt (a : Afterglow) (x y : Nat) : Glow := a.glows.get ⟨pixelIndex x y, pixelIndex_lt x y⟩

theorem glowAt_update (a : Afterglow) (s : Screen) (seconds : Float32) (x y : Nat) :
    (a.update s seconds).glowAt x y = (a.glowAt x y).next (s.pixel x y) (aging a.decay seconds) :=
  Vector.getElem_zipWith _

/-- A pixel goes through its own history, whatever the other pixels do. -/
theorem glowAt_play (a : Afterglow) (updates : List (Screen × Float32)) (x y : Nat) :
    (a.play updates).glowAt x y = (a.glowAt x y).follow a.decay (history x y updates) := by
  induction updates generalizing a with
  | nil => rfl
  | cons u rest ih =>
    have hrest := ih (a.update u.1 u.2)
    rw [glowAt_update] at hrest
    exact hrest

theorem glowAt_play_new (decay : Float32) (updates : List (Screen × Float32)) (x y : Nat) :
    ((new decay).play updates).glowAt x y = Glow.dark.follow decay (history x y updates) := by
  have hdark : (new decay).glowAt x y = .dark := Vector.getElem_replicate _
  rw [glowAt_play, hdark]
  rfl

/-- After any updates of an afterglow that was dark, the glow and the intensity of a pixel are what its own history
comes to. A pixel with a history that is the same since it was last lit glows the same, wherever it is and whatever
the other pixels did. -/
theorem afterglow_tells_history (decay : Float32) (updates : List (Screen × Float32)) {x y : Nat} (hx : x < 64)
    (hy : y < 32) :
    let a := (new decay).play updates
    (∃ intensity, Glow.Told decay (history x y updates) (a.glowAt x y) intensity ∧
        a.intensityAt (UInt64.ofNat x) (UInt64.ofNat y) = .ok intensity) ∧
      ∀ (updates' : List (Screen × Float32)) (x' y' : Nat), x' < 64 → y' < 32 →
        Glow.SameSinceLit (history x y updates) (history x' y' updates') →
          let a' := (new decay).play updates'
          a'.glowAt x' y' = a.glowAt x y ∧
            a'.intensityAt (UInt64.ofNat x') (UInt64.ofNat y') = a.intensityAt (UInt64.ofNat x) (UInt64.ofNat y) := by
  intro a
  refine ⟨⟨(a.glowAt x y).intensity, ?_, a.intensityAt_eq hx hy⟩, fun updates' x' y' hx' hy' hsame => ?_⟩
  · rw [glowAt_play_new]
    exact Glow.told_follow decay _
  · intro a'
    have hglow : a'.glowAt x' y' = a.glowAt x y := by
      rw [glowAt_play_new, glowAt_play_new, Glow.follow_of_sameSinceLit hsame]
    refine ⟨hglow, ?_⟩
    rw [a.intensityAt_eq hx hy, a'.intensityAt_eq hx' hy']
    exact congrArg (fun g : Glow => Except.ok g.intensity) hglow

/-- A pixel in the last corner that fades until its age is one, and one in the first corner that did so before and was
lit again. -/
theorem afterglow_tells_history_relit :
    let last := Screen.blank.toggle 63 31
    let first := Screen.blank.toggle 0 0
    let updates := [(last, 0.25), (.blank, 0.25), (first, 0.25), (.blank, 0.25)]
    let updates' := [(first, 9.0), (.blank, 0.25), (first, 0.5), (.blank, 0.25), (last, 0.25), (.blank, 0.25)]
    let a := (new 0.5).play updates
    let a' := (new 0.5).play updates'
    ((63 < 64 ∧ 31 < 32) ∧ 0 < 64 ∧ 0 < 32) ∧ Glow.SameSinceLit (history 63 31 updates) (history 0 0 updates') ∧
      (∃ intensity, Glow.Told 0.5 (history 63 31 updates) (a.glowAt 63 31) intensity ∧
        a.intensityAt 63 31 = .ok intensity) ∧
      a.glowAt 63 31 = .fading 1.0 ∧ a'.glowAt 0 0 = .fading 1.0 ∧ a'.intensityAt 0 0 = a.intensityAt 63 31 := by
  intro last first updates updates' a a'
  have hhistory : history 63 31 updates =
      [(true, 0.25), (false, 0.25), (false, 0.25), (false, 0.25)] := by decide +kernel
  have hhistory' : history 0 0 updates' =
      [(true, 9.0), (false, 0.25), (true, 0.5), (false, 0.25), (false, 0.25), (false, 0.25)] := by decide +kernel
  have hsame : Glow.SameSinceLit (history 63 31 updates) (history 0 0 updates') :=
    .inr ⟨[], [(true, 9.0), (false, 0.25)], 0.25, 0.5, [(false, 0.25), (false, 0.25), (false, 0.25)],
      hhistory, hhistory'⟩
  have hglow : a.glowAt 63 31 = .fading 1.0 := by
    rw [glowAt_play_new, hhistory]
    rfl
  obtain ⟨htold, hother⟩ := afterglow_tells_history 0.5 updates (x := 63) (y := 31) (by decide) (by decide)
  obtain ⟨hglow', hintensity⟩ := hother updates' 0 0 (by decide) (by decide) hsame
  exact ⟨by decide, hsame, htold, hglow, hglow'.trans hglow, hintensity⟩

end Afterglow

end Chip8
