import Chip8.Proofs.Headless

/-!
# The limit of frames

The frames that are complete are counted after a frame, and only then compared with the limit. So a run has done
nothing but what the frames of its limit ask for, and all of it if no step fails, unless the limit is no frames at
all: the first frame is played before anything is compared.

* `Machine.Course.keepsTo`: a course of `n` frames asks for nothing more.
* `Machine.Course.keepsTo_iff`: the course that a run takes, against the limit that was asked for.
* `headless_run_keepsTo_iff`: whole runs.
-/
namespace Chip8

/-- The requests of at most `n` frames are made, of which at most `n` are complete, and exactly `n` if nothing
fails. -/
structure KeepsTo (rate n : Nat) (ops : List Operation) (done : Nat) (fault : Option Fault) : Prop where
  requests : ops <+: firstFrames rate n
  done_le : done ≤ n
  done_eq : fault = none → done = n

/-- The first steps of a frame are some of its requests. -/
theorem Allowance.steps_prefix_ops {j : Nat} {a : Allowance} (h : j ≤ a.cycles) :
    List.replicate j Operation.step <+: a.ops := by
  refine List.IsPrefix.trans ?_ (List.prefix_append (List.replicate a.cycles Operation.step) _)
  exact List.prefix_replicate_iff.mpr ⟨by simpa using h, by simp⟩

namespace Machine

variable {m : Machine} {rate n done : Nat} {ops : List Operation} {fault : Option Fault}

theorem Course.keepsTo (h : m.Course rate n ops done fault) : KeepsTo rate n ops done fault := by
  cases h with
  | complete hok => exact ⟨List.prefix_refl _, Nat.le_refl n, fun _ => rfl⟩
  | cut hk hj hok hf =>
    refine ⟨?_, Nat.le_of_lt hk, fun hnone => nomatch hnone⟩
    refine List.IsPrefix.trans ?_ (firstFrames_prefix_of_le rate (Nat.succ_le_of_lt hk))
    rw [firstFrames_succ]
    exact (List.prefix_append_right_inj _).mpr (Allowance.steps_prefix_ops (Nat.succ_le_of_lt hj))

/-- A limit of no frames is not kept to: either the first frame is complete, or a step of it failed. -/
theorem Course.not_keepsTo_zero (h : m.Course rate 1 ops done fault) : ¬ KeepsTo rate 0 ops done fault := by
  intro hkeeps
  cases h with
  | complete hok => exact absurd hkeeps.done_le (by decide)
  | cut =>
    have hnone := List.prefix_nil.mp hkeeps.requests
    simp at hnone

theorem Course.keepsTo_iff (h : m.Course rate (max n 1) ops done fault) :
    KeepsTo rate n ops done fault ↔ 1 ≤ n := by
  rcases Nat.eq_zero_or_pos n with rfl | hn
  · exact ⟨fun hkeeps => absurd hkeeps h.not_keepsTo_zero, fun hle => absurd hle (by decide)⟩
  · rw [Nat.max_eq_left hn] at h
    exact ⟨fun _ => hn, fun _ => h.keepsTo⟩

end Machine

namespace Console

/-- A run that does not wait goes its way, with one frame played if the limit is none. It does no more than the
frames it was limited to, and all of them if no step fails, exactly if that limit is at least one frame. -/
theorem headless_run_keepsTo_iff (arguments : List String) (logSpec : Option String)
    (readImage : String → Except String (List UInt8)) (entropy : RandomStream) {p : Plan}
    {image : List UInt8} {n : Nat} (hplan : plan arguments logSpec = .ok p)
    (hheadless : p.options.headless = true) (hframes : p.options.frames = some n)
    (hrate : p.options.rate ≤ 1000000000) (himage : readImage p.options.image = .ok image)
    (hsize : image.length ≤ 3584) :
    let transcript := run arguments logSpec readImage entropy
    (∃ ops done fault, p.Performs entropy image (max n 1) transcript ops done fault) ∧
    ∀ ops done fault, p.Performs entropy image (max n 1) transcript ops done fault →
      KeepsTo p.options.rate (max n 1) ops done fault ∧
        (KeepsTo p.options.rate n ops done fault ↔ 1 ≤ n) := by
  refine ⟨run_performs hplan hheadless hframes hrate himage hsize entropy, fun ops done fault hperforms => ?_⟩
  exact ⟨hperforms.course.keepsTo, hperforms.course.keepsTo_iff⟩

/-- A program that jumps to itself. -/
def jumpForever : List UInt8 := [0x12, 0x00]

theorem headless_run_keepsTo_iff_two_frames :
    let arguments := ["--headless", "-n", "2", "rom"]
    let readImage (_ : String) : Except String (List UInt8) := .ok jumpForever
    ∃ p, plan arguments none = .ok p ∧ p.options.headless = true ∧ p.options.frames = some 2 ∧
      p.options.rate ≤ 1000000000 ∧ readImage p.options.image = .ok jumpForever ∧
      jumpForever.length ≤ 3584 ∧
      ∃ ops done fault, p.Performs (.ofSeed 0) jumpForever 2 (run arguments none readImage (.ofSeed 0)) ops
        done fault ∧ KeepsTo p.options.rate 2 ops done fault := by
  intro arguments readImage
  obtain ⟨p, hplan, hheadless, hframes, hrate⟩ : ∃ p, plan arguments none = .ok p ∧
      p.options.headless = true ∧ p.options.frames = some 2 ∧ p.options.rate = 500 :=
    ⟨_, rfl, rfl, rfl, rfl⟩
  have hslow : p.options.rate ≤ 1000000000 := by omega
  have hsize : jumpForever.length ≤ 3584 := by decide
  obtain ⟨⟨ops, done, fault, hperforms⟩, hkeeps⟩ := headless_run_keepsTo_iff arguments none readImage
    (.ofSeed 0) hplan hheadless hframes hslow rfl hsize
  exact ⟨p, hplan, hheadless, hframes, hslow, rfl, hsize, ops, done, fault, hperforms,
    (hkeeps ops done fault hperforms).2.mpr (by decide)⟩

/-- With a limit of no frames the eight steps of the first frame are made, and that frame is counted. -/
theorem no_frames_plays_one :
    let arguments := ["--headless", "--frames", "0", "rom"]
    let readImage (_ : String) : Except String (List UInt8) := .ok jumpForever
    ∃ p, plan arguments none = .ok p ∧ p.options.headless = true ∧ p.options.frames = some 0 ∧
      p.options.rate ≤ 1000000000 ∧ readImage p.options.image = .ok jumpForever ∧
      jumpForever.length ≤ 3584 ∧
      p.Performs (.ofSeed 0) jumpForever 1 (run arguments none readImage (.ofSeed 0))
        (List.replicate 8 .step) 1 none ∧
      ¬ KeepsTo p.options.rate 0 (List.replicate 8 .step) 1 none := by
  intro arguments readImage
  obtain ⟨p, hplan, hheadless, hframes, hrate, hdialect, hseed, hkeys⟩ : ∃ p, plan arguments none = .ok p ∧
      p.options.headless = true ∧ p.options.frames = some 0 ∧ p.options.rate = 500 ∧
      p.options.dialect = .classic ∧ p.options.seed = none ∧ p.options.keys = [] :=
    ⟨_, rfl, rfl, rfl, rfl, rfl, rfl, rfl⟩
  have hslow : p.options.rate ≤ 1000000000 := by omega
  have hsize : jumpForever.length ≤ 3584 := by decide
  have hops : firstFrames 500 1 = List.replicate 8 .step := by decide +kernel
  have hsucceeds : (p.machine (.ofSeed 0) jumpForever).Succeeds (firstFrames 500 1) := by
    rw [Plan.machine, hdialect, hseed, hkeys]
    unfold Machine.Succeeds
    decide +kernel
  have hcourse : (p.machine (.ofSeed 0) jumpForever).Course p.options.rate (max 0 1)
      (List.replicate 8 .step) 1 none := by
    rw [hrate, ← hops]
    exact .complete hsucceeds
  exact ⟨p, hplan, hheadless, hframes, hslow, rfl, hsize,
    performs_of_course hplan hheadless hframes hslow rfl hsize hcourse, hcourse.not_keepsTo_zero⟩

end Console
end Chip8
