import Chip8.Console.Session
import Chip8.Proofs.Conservation
import Chip8.Proofs.Halting

/-!
# The schedule of frames of nominal length

If every frame lasts its nominal time, what a frame is worth does not depend on anything but its number: the
meters owe what is left of `k` frames after whole periods, and frame `k` gets the periods that are complete
after `k` frames and were not after `k - 1`.

* `Meter.counts_regular`, `Meter.settle_regular`: one meter, one frame.
* `Tempo.elapse_nominal`: both meters.
* `firstFrames`: the requests to the machine that this comes to.
* `Machine.Course`: how these requests go, up to the first that fails. `course_exists`: in one way or the other.
-/
namespace Chip8

open Console (frameTime)

/-- The periods that are complete after frame `k` and not before it. -/
def periodsIn (period k : Nat) : Nat := 16000000 * k / period - 16000000 * (k - 1) / period

/-- The length of an instruction cycle at a rate. -/
def cyclePeriod (rate : Nat) : Nat := 1000000000 / max rate 1

/-- The length of a timer tick. -/
def tickPeriod : Nat := 16666666

/-- The instructions of frame `k`. -/
def stepsIn (rate k : Nat) : Nat := periodsIn (cyclePeriod rate) k

/-- The timer ticks of frame `k`. -/
def ticksIn (k : Nat) : Nat := periodsIn tickPeriod k

/-- What an allowance asks of the machine. -/
def Allowance.ops (a : Allowance) : List Operation :=
  List.replicate a.cycles .step ++ List.replicate a.ticks (.tick 1)

/-- What frame `k` is worth. -/
def frameAllowance (rate k : Nat) : Allowance := ⟨stepsIn rate k, ticksIn k⟩

/-- What the first `n` frames ask of the machine. -/
def firstFrames (rate n : Nat) : List Operation :=
  (List.range n).flatMap fun k => (frameAllowance rate (k + 1)).ops

theorem firstFrames_succ (rate n : Nat) :
    firstFrames rate (n + 1) = firstFrames rate n ++ (frameAllowance rate (n + 1)).ops := by
  simp [firstFrames, List.range_succ]

theorem firstFrames_prefix_of_le (rate : Nat) {k n : Nat} (h : k ≤ n) :
    firstFrames rate k <+: firstFrames rate n := by
  induction n, h using Nat.le_induction with
  | base => exact List.prefix_rfl
  | succ n _ ih => exact ih.trans (firstFrames_succ rate n ▸ List.prefix_append _ _)

namespace Meter

/-- What is owed after `k` calls of one length, if no count was cut. -/
def regular (period time k : Nat) : Meter := ⟨period, time * k % period⟩

variable {period time : Nat}

/-- Less than a period is owed, and each of the `countLimit - 1` others lasts a nanosecond at least. -/
theorem regular_fits (hp : 0 < period) (ht : time < countLimit) (k : Nat) :
    (regular period time k).owed + time < countLimit * period := by
  have howed : (regular period time k).owed < period := Nat.mod_lt _ hp
  have hlimit : countLimit = 4294967295 + 1 := rfl
  have hmul : 4294967295 ≤ 4294967295 * period := Nat.le_mul_of_pos_right _ hp
  rw [hlimit, Nat.succ_mul]
  omega

theorem counts_regular (hp : 0 < period) (ht : time < countLimit) (k : Nat) :
    (regular period time k).counts time = time * (k + 1) / period - time * k / period := by
  have hfits := regular_fits hp ht k
  rw [Nat.mul_comm countLimit] at hfits
  have hlt : (time * k % period + time) / period < countLimit := Nat.div_lt_of_lt_mul hfits
  have hsplit : time * (k + 1) = time * k % period + time + period * (time * k / period) := by
    have := Nat.mod_add_div (time * k) period
    rw [Nat.mul_succ]
    omega
  rw [hsplit, Nat.add_mul_div_left _ _ hp, Nat.add_sub_cancel]
  exact Nat.mod_eq_of_lt hlt

theorem settle_regular (hp : 0 < period) (ht : time < countLimit) (k : Nat) :
    (regular period time k).settle time = regular period time (k + 1) := by
  have hsum := (regular period time k).counts_mul_period_add_owed time
  have hlt : ((regular period time k).settle time).owed < period :=
    (regular period time k).settle_owed_lt time (regular_fits hp ht k)
  -- what is left after whole periods, and less than one of them, is the remainder
  have howed : ((regular period time k).settle time).owed = time * (k + 1) % period := by
    rw [Nat.mul_succ, ← Nat.mod_add_mod, show time * k % period = (regular period time k).owed from rfl,
      ← hsum, Nat.add_comm]
    exact ((Nat.add_mul_mod_self_right _ _ _).trans (Nat.mod_eq_of_lt hlt)).symm
  calc (regular period time k).settle time
      = ⟨period, ((regular period time k).settle time).owed⟩ := rfl
    _ = regular period time (k + 1) := by rw [howed]; rfl

end Meter

namespace Tempo

/-- The tempo of a rate after `k` frames of nominal length. -/
def afterFrames (rate k : Nat) : Tempo :=
  ⟨.regular (cyclePeriod rate) frameTime k, .regular tickPeriod frameTime k⟩

theorem afterFrames_zero (rate : Nat) : afterFrames rate 0 = ofRate rate := by
  simp [afterFrames, ofRate, Meter.regular, Meter.ofPeriod, cyclePeriod, tickPeriod, second,
    ticksPerSecond]

/-- A frame of nominal length is worth what the schedule says. -/
theorem elapse_nominal {rate : Nat} (hrate : rate ≤ second) (k : Nat) :
    (afterFrames rate k).elapse frameTime =
      .ok (frameAllowance rate (k + 1), afterFrames rate (k + 1)) := by
  have hc : 0 < cyclePeriod rate := cycles_period_pos hrate
  have ht : 0 < tickPeriod := by decide
  have hframe : frameTime < countLimit := by decide
  have hfit (period : Nat) (hp : period ≤ second) (h0 : 0 < period) :
      frameTime * k % period + frameTime ≤ longestDuration := by
    have hmod := Nat.mod_lt (frameTime * k) h0
    have hlongest : second + frameTime ≤ longestDuration := by decide
    omega
  have hsums : (afterFrames rate k).SumsFit frameTime :=
    ⟨hfit _ (Nat.div_le_self _ _) hc, hfit _ (by decide) ht⟩
  rw [elapse_of_sumsFit hc ht hsums]
  simp only [afterFrames, Meter.counts_regular hc hframe, Meter.counts_regular ht hframe,
    Meter.settle_regular hc hframe, Meter.settle_regular ht hframe]
  rfl

end Tempo

/-! ## The schedule on a machine -/

namespace Machine

/-- How the requests of `n` frames go: the requests that are made, the number of frames that are complete,
and the fault that ended them if one did. -/
inductive Course (m : Machine) (rate n : Nat) : List Operation → Nat → Option Fault → Prop
  | complete (h : m.Succeeds (firstFrames rate n)) : Course m rate n (firstFrames rate n) n none
  /-- After `k` frames and `j` instructions of the next one, an instruction fails. -/
  | cut {k j : Nat} {f : Fault} (hk : k < n) (hj : j < stepsIn rate (k + 1))
      (h : m.Succeeds (firstFrames rate k ++ List.replicate j .step))
      (hf : (m.run (firstFrames rate k ++ List.replicate j .step)).step.result = .error (.fault f)) :
      Course m rate n (firstFrames rate k ++ List.replicate (j + 1) .step) k (some f)

variable {m : Machine}

theorem stepResults_append (m : Machine) (ops ops' : List Operation) :
    m.stepResults (ops ++ ops') = m.stepResults ops ++ (m.run ops).stepResults ops' := by
  induction ops generalizing m with
  | nil => rfl
  | cons op rest ih =>
    simp only [List.cons_append, stepResults, ih, List.append_assoc]
    rfl

theorem halted_of_run_halted (ops : List Operation) (h : (m.run ops).halted = false) :
    m.halted = false := by
  cases hm : m.halted with
  | false => rfl
  | true => exact absurd ((inert_run hm ops).halted.symm.trans h) (by simp [hm])

/-- A run succeeds if it does so up to some point and from there. -/
theorem succeeds_append_iff {ops ops' : List Operation} :
    m.Succeeds (ops ++ ops') ↔ m.Succeeds ops ∧ (m.run ops).Succeeds ops' := by
  simp only [Succeeds, stepResults_append, List.forall_mem_append, run_append]
  constructor
  · rintro ⟨⟨hops, hops'⟩, hend⟩
    exact ⟨⟨hops, halted_of_run_halted ops' hend⟩, hops', hend⟩
  · rintro ⟨⟨hops, -⟩, hops', hend⟩
    exact ⟨⟨hops, hops'⟩, hend⟩

theorem Succeeds.of_prefix {ops ops' : List Operation} (h : m.Succeeds ops') (hpre : ops <+: ops') :
    m.Succeeds ops := by
  obtain ⟨rest, rfl⟩ := hpre
  exact (succeeds_append_iff.mp h).1

theorem succeeds_ticks (h : m.halted = false) (n : Nat) : m.Succeeds (List.replicate n (.tick 1)) := by
  induction n generalizing m with
  | zero => exact ⟨by simp [stepResults], h⟩
  | succ n ih => exact (ih (m := m.tick 1) h).cons fun hstep => by cases hstep

/-- The instructions of a running machine succeed, or do so up to one that fails. -/
theorem steps_succeed_or_fail (hd : m.stack.depth ≤ stackFrames) (h : m.halted = false) (n : Nat) :
    m.Succeeds (List.replicate n .step) ∨
      ∃ j f, j < n ∧ m.Succeeds (List.replicate j .step) ∧
        (m.run (List.replicate j .step)).step.result = .error (.fault f) := by
  rcases succeeds_or_fails hd h (List.replicate n .step) with hok | ⟨before, later, f, hsplit, hfails⟩
  · exact .inl hok
  · obtain ⟨hlength, hbefore, -⟩ := List.append_eq_replicate_iff.mp hsplit.symm
    rw [List.length_cons] at hlength
    rw [hbefore] at hfails
    exact .inr ⟨before.length, f, by omega, hfails.succeeds, hfails.result⟩

theorem course_exists (hd : m.stack.depth ≤ stackFrames) (h : m.halted = false) (rate n : Nat) :
    ∃ ops done fault, m.Course rate n ops done fault := by
  induction n with
  | zero => exact ⟨_, _, _, .complete ⟨by simp [firstFrames, stepResults], h⟩⟩
  | succ n ih =>
    obtain ⟨ops, done, fault, hcourse⟩ := ih
    cases hcourse with
    | cut hk hj hok hf => exact ⟨_, _, _, .cut (Nat.lt_succ_of_lt hk) hj hok hf⟩
    | complete hok =>
      have hdepth : (m.run (firstFrames rate n)).stack.depth ≤ stackFrames := depth_le_run hd _
      rcases steps_succeed_or_fail hdepth hok.2 (stepsIn rate (n + 1)) with hsteps | ⟨j, f, hj, hsteps, hf⟩
      · refine ⟨_, _, _, .complete ?_⟩
        have hframe := succeeds_append_iff.mpr ⟨hsteps, succeeds_ticks hsteps.2 (ticksIn (n + 1))⟩
        exact (firstFrames_succ rate n).symm ▸ succeeds_append_iff.mpr ⟨hok, hframe⟩
      · rw [← run_append] at hf
        exact ⟨_, _, _, .cut n.lt_succ_self hj (succeeds_append_iff.mpr ⟨hok, hsteps⟩) hf⟩

end Machine
end Chip8
