import Chip8.Proofs.Conservation
import Mathlib.Data.List.Induction

/-!
# Keeping up

A call hands out what has passed in whole periods, but a count of periods has 32 bits. Where there are more of
them, `countLimit` periods at a time stay owed, and later counts are cut in the same way: no call hands them out.
So a tempo keeps up exactly if each call, with the time that the calls before it left over, is shorter than
`countLimit` periods. And a rate has a period to hand out exactly if it is at most a thousand million: above, the
period is rounded down to nothing and the first call divides by it.

* `settle_owed_lt_iff`, `Accounts`: what one meter owes, and the periods that were cut from its counts.
* `accounts_of_run`: the same for a tempo, after any calls.
* `keepsUp_iff`: which calls a tempo keeps up with.
* `usable_iff`: which rates have a budget for every call.
-/
namespace Chip8

/-! ## What one meter owes -/

namespace Meter

variable {m : Meter} {time total : Nat}

theorem credit_eq_ok {m' : Meter} (h : m.credit time = .ok m') :
    m.owed + time ≤ longestDuration ∧ m' = { m with owed := m.owed + time } := by
  unfold credit at h
  split at h
  · cases h
    exact ⟨‹_›, rfl⟩
  · cases h

theorem drain_eq_ok {r : Nat × Meter} (h : m.drain = .ok r) :
    0 < m.period ∧ r = (m.due, { m with owed := m.owed - m.period * m.due }) := by
  unfold drain at h
  split at h
  · cases h
  · cases h
    exact ⟨Nat.pos_of_ne_zero ‹_›, rfl⟩

/-- What is owed after a call: the time that makes no period, and the periods that were cut from the count. -/
theorem settle_owed (m : Meter) (time : Nat) :
    (m.settle time).owed =
      (m.owed + time) % m.period + m.period * (countLimit * ((m.owed + time) / m.period / countLimit)) := by
  have hpaid := m.counts_mul_period_add_owed time
  have htime := Nat.div_add_mod (m.owed + time) m.period
  have hcount := congrArg (m.period * ·) (Nat.div_add_mod ((m.owed + time) / m.period) countLimit)
  -- the periods that passed, in two parts: those that are paid for and those that were cut
  rw [Nat.mul_add] at hcount
  rw [counts, Nat.mul_comm _ m.period] at hpaid
  omega

/-- Less than a period stays owed exactly if no count was cut. -/
theorem settle_owed_lt_iff (hperiod : 0 < m.period) :
    (m.settle time).owed < m.period ↔ m.owed + time < countLimit * m.period := by
  refine ⟨fun h => ?_, m.settle_owed_lt time⟩
  rw [settle_owed] at h
  have hcuts : countLimit * ((m.owed + time) / m.period / countLimit) = 0 := by
    by_contra hne
    -- a cut leaves whole periods owed
    have hcut := Nat.le_mul_of_pos_right m.period (Nat.pos_of_ne_zero hne)
    omega
  have hcount : (m.owed + time) / m.period < countLimit := by
    rw [countLimit] at hcuts ⊢
    omega
  rwa [Nat.div_lt_iff_lt_mul hperiod] at hcount

/-- A meter has handed out some periods of the time that has passed. It owes the rest of that time, which is less
than a period and what was cut from the counts, `countLimit` periods at a time. -/
structure Accounts (m : Meter) (period total handed : Nat) : Prop where
  period_eq : m.period = period
  handed_add_owed : handed * period + m.owed = total
  owed_eq : ∃ cuts, m.owed = total % period + period * (countLimit * cuts)

theorem accounts_ofPeriod (period : Nat) : (ofPeriod period).Accounts period 0 0 :=
  ⟨rfl, by simp [ofPeriod], 0, by simp [ofPeriod]⟩

namespace Accounts

variable {period handed : Nat}

theorem settle (h : m.Accounts period total handed) (time : Nat) :
    (m.settle time).Accounts period (total + time) (handed + m.counts time) := by
  obtain ⟨rfl, hsum, cuts, howed⟩ := h
  refine ⟨rfl, ?_, (m.owed + time) / m.period / countLimit, ?_⟩
  · have hcall := m.counts_mul_period_add_owed time
    rw [Nat.add_mul]
    omega
  · have hmod : (m.owed + time) % m.period = (total + time) % m.period := by
      rw [howed, Nat.add_right_comm, Nat.add_mul_mod_self_left, Nat.mod_add_mod]
    rw [settle_owed, hmod]

/-- Periods that were cut from a count do not change a later one. -/
theorem counts_eq (h : m.Accounts period total handed) (hperiod : 0 < period) (time : Nat) :
    m.counts time = (total % period + time) / period % countLimit := by
  obtain ⟨rfl, -, cuts, howed⟩ := h
  rw [counts, howed, Nat.add_right_comm, Nat.add_mul_div_left _ _ hperiod, Nat.add_mul_mod_self_left]

/-- Where less than a period is owed, all that has passed is handed out but the remainder. -/
theorem eq_div_and_eq_mod (h : m.Accounts period total handed) (hlt : m.owed < m.period) :
    handed = total / period ∧ m.owed = total % period := by
  obtain ⟨rfl, hsum, -⟩ := h
  have hsplit : m.owed + m.period * handed = total := by rw [← hsum, Nat.mul_comm, Nat.add_comm]
  obtain ⟨hdiv, hmod⟩ := (Nat.div_mod_unique (Nat.zero_lt_of_lt hlt)).mpr ⟨hsplit, hlt⟩
  exact ⟨hdiv.symm, hmod.symm⟩

end Accounts

end Meter

namespace Tempo

variable {t t' : Tempo} {rate time : Nat} {times : List Nat} {allowance : Allowance}
  {allowances : List Allowance}

/-! ## Calls that return -/

theorem elapse_eq_ok_iff : t.elapse time = .ok (allowance, t') ↔
    (0 < t.cycles.period ∧ 0 < t.ticks.period ∧ t.SumsFit time) ∧
      allowance = ⟨t.cycles.counts time, t.ticks.counts time⟩ ∧
      t' = ⟨t.cycles.settle time, t.ticks.settle time⟩ := by
  constructor
  · intro h
    obtain ⟨cycles, hcycles, h⟩ := bind_eq_ok h
    obtain ⟨ticks, hticks, h⟩ := bind_eq_ok h
    obtain ⟨hcfit, rfl⟩ := Meter.credit_eq_ok hcycles
    obtain ⟨htfit, rfl⟩ := Meter.credit_eq_ok hticks
    obtain ⟨cyclesDue, hcdrain, h⟩ := bind_eq_ok h
    obtain ⟨ticksDue, htdrain, h⟩ := bind_eq_ok h
    obtain ⟨hc, rfl⟩ := Meter.drain_eq_ok hcdrain
    obtain ⟨ht, rfl⟩ := Meter.drain_eq_ok htdrain
    cases h
    exact ⟨⟨hc, ht, hcfit, htfit⟩, rfl, rfl⟩
  · rintro ⟨⟨hc, ht, hfits⟩, rfl, rfl⟩
    exact elapse_of_sumsFit hc ht hfits

theorem run_concat (t : Tempo) (times : List Nat) (time : Nat) :
    t.run (times ++ [time]) = do
      let (before, t) ← t.run times
      let (allowance, t) ← t.elapse time
      return (before ++ [allowance], t) := by
  induction times generalizing t with
  | nil => simp only [List.nil_append, run, bind, Except.bind]
  | cons first rest ih => simp [run, ih]

theorem run_concat_eq_ok_iff : t.run (times ++ [time]) = .ok (allowances, t') ↔
    ∃ before t₀ allowance, t.run times = .ok (before, t₀) ∧ t₀.elapse time = .ok (allowance, t') ∧
      allowances = before ++ [allowance] := by
  constructor
  · intro h
    rw [run_concat] at h
    obtain ⟨⟨before, t₀⟩, hrun, h⟩ := bind_eq_ok h
    obtain ⟨⟨allowance, last⟩, hcall, h⟩ := bind_eq_ok h
    cases h
    exact ⟨before, t₀, allowance, hrun, hcall, rfl⟩
  · rintro ⟨before, t₀, allowance, hrun, hcall, rfl⟩
    simp only [run_concat, hrun, hcall, bind, Except.bind]
    rfl

/-- Both meters account for the calls before. -/
theorem accounts_of_run (h : (ofRate rate).run times = .ok (allowances, t)) :
    t.cycles.Accounts (ofRate rate).cycles.period times.sum (totalCycles allowances) ∧
      t.ticks.Accounts (ofRate rate).ticks.period times.sum (totalTicks allowances) := by
  induction times using List.reverseRecOn generalizing allowances t with
  | nil =>
    cases h
    exact ⟨Meter.accounts_ofPeriod _, Meter.accounts_ofPeriod _⟩
  | append_singleton times time ih =>
    obtain ⟨before, t₀, allowance, hrun, hcall, rfl⟩ := run_concat_eq_ok_iff.mp h
    obtain ⟨-, rfl, rfl⟩ := elapse_eq_ok_iff.mp hcall
    obtain ⟨hcycles, hticks⟩ := ih hrun
    simp only [totalCycles, totalTicks, List.map_append, List.map_singleton, List.sum_append, List.sum_singleton]
    exact ⟨hcycles.settle time, hticks.settle time⟩

/-! ## Which calls a tempo keeps up with -/

/-- Some calls return, and after them less than a period of each meter is owed. -/
def CaughtUp (rate : Nat) (times : List Nat) : Prop :=
  ∃ allowances t, (ofRate rate).run times = .ok (allowances, t) ∧
    t.cycles.owed < t.cycles.period ∧ t.ticks.owed < t.ticks.period

/-- Every call returns, and after it less than a period of each meter is owed. -/
def KeepsUp (rate : Nat) (times : List Nat) : Prop :=
  ∀ past, past <+: times → CaughtUp rate past

/-- Each call, with what the calls before it left over of a period, is shorter than `countLimit` periods. -/
def Uncut (period : Nat) (times : List Nat) : Prop :=
  ∀ past time, past ++ [time] <+: times → past.sum % period + time < countLimit * period

theorem keepsUp_concat_iff :
    KeepsUp rate (times ++ [time]) ↔ KeepsUp rate times ∧ CaughtUp rate (times ++ [time]) := by
  simp only [KeepsUp, List.prefix_concat_iff, or_imp, forall_and, forall_eq]
  exact and_comm

theorem uncut_nil (period : Nat) : Uncut period [] := by
  intro past time hp
  simp at hp

theorem uncut_concat_iff {period : Nat} : Uncut period (times ++ [time]) ↔
    Uncut period times ∧ times.sum % period + time < countLimit * period := by
  constructor
  · intro h
    exact ⟨fun past next hp => h past next (hp.trans (List.prefix_append times [time])),
      h times time (List.prefix_refl _)⟩
  · rintro ⟨hpast, hlast⟩ past next hp
    rcases List.prefix_concat_iff.mp hp with heq | hp
    · obtain ⟨rfl, hnext⟩ := List.append_inj' heq rfl
      cases hnext
      exact hlast
    · exact hpast past next hp

/-- One more call of a tempo that owes less than a period. -/
theorem caughtUp_concat_iff (htime : time ≤ longestDuration - second) (h : CaughtUp rate times) :
    CaughtUp rate (times ++ [time]) ↔
      times.sum % (ofRate rate).cycles.period + time < countLimit * (ofRate rate).cycles.period ∧
        times.sum % (ofRate rate).ticks.period + time < countLimit * (ofRate rate).ticks.period := by
  obtain ⟨allowances, t, hrun, hc, ht⟩ := h
  obtain ⟨hcycles, hticks⟩ := accounts_of_run hrun
  have hcpos : 0 < t.cycles.period := Nat.zero_lt_of_lt hc
  have htpos : 0 < t.ticks.period := Nat.zero_lt_of_lt ht
  -- less than a second is owed, so that one more call makes a duration
  have hfits : t.SumsFit time := by
    have hcsecond : t.cycles.period ≤ second := hcycles.period_eq ▸ Nat.div_le_self _ _
    have htsecond : t.ticks.period ≤ second := hticks.period_eq ▸ Nat.div_le_self _ _
    have hlongest : second ≤ longestDuration := by decide
    exact ⟨by omega, by omega⟩
  have helapse := elapse_of_sumsFit hcpos htpos hfits
  rw [← (hcycles.eq_div_and_eq_mod hc).2, ← (hticks.eq_div_and_eq_mod ht).2, ← hcycles.period_eq,
    ← hticks.period_eq, ← Meter.settle_owed_lt_iff hcpos, ← Meter.settle_owed_lt_iff htpos]
  constructor
  · rintro ⟨all, last, hall, hcycles, hticks⟩
    obtain ⟨before, t₀, allowance, hbefore, hcall, -⟩ := run_concat_eq_ok_iff.mp hall
    cases hrun.symm.trans hbefore
    cases helapse.symm.trans hcall
    exact ⟨hcycles, hticks⟩
  · rintro ⟨hcycles, hticks⟩
    exact ⟨_, _, run_concat_eq_ok_iff.mpr ⟨_, _, _, hrun, helapse, rfl⟩, hcycles, hticks⟩

theorem keepsUp_iff_uncut (hrate : rate ≤ second)
    (hshort : ∀ time ∈ times, time ≤ longestDuration - second) :
    KeepsUp rate times ↔
      Uncut (ofRate rate).cycles.period times ∧ Uncut (ofRate rate).ticks.period times := by
  induction times using List.reverseRecOn with
  | nil =>
    have hstart : CaughtUp rate [] := ⟨[], ofRate rate, rfl, cycles_period_pos hrate, ticks_period_pos rate⟩
    refine ⟨fun _ => ⟨uncut_nil _, uncut_nil _⟩, fun _ past hp => ?_⟩
    rwa [List.prefix_nil.mp hp]
  | append_singleton times time ih =>
    obtain ⟨hpast, hlast⟩ := List.forall_mem_append.mp hshort
    have hcall (h : KeepsUp rate times) :=
      caughtUp_concat_iff (hlast time List.mem_cons_self) (h times (List.prefix_refl _))
    rw [keepsUp_concat_iff, and_congr_right hcall, ih hpast, uncut_concat_iff, uncut_concat_iff]
    exact and_and_and_comm

/-- At a rate of at most a thousand million, of calls at least a second shorter than the longest duration: after
each of them less than a period is owed exactly if no count is cut, and then all that has passed is handed out.
After any calls that return, a count is of the call's time and what was left over of a period before it, cut to 32
bits: periods that were cut before are not among them. -/
theorem keepsUp_iff (rate : Nat) (hrate : rate ≤ second) :
    let cyclePeriod := (ofRate rate).cycles.period
    let tickPeriod := (ofRate rate).ticks.period
    (∀ times, (∀ time ∈ times, time ≤ longestDuration - second) →
      (KeepsUp rate times ↔ Uncut cyclePeriod times ∧ Uncut tickPeriod times)) ∧
    (∀ times, KeepsUp rate times → ∃ allowances t, (ofRate rate).run times = .ok (allowances, t) ∧
      totalCycles allowances = times.sum / cyclePeriod ∧
      totalTicks allowances = times.sum / tickPeriod) ∧
    ∀ past time before allowance t, (ofRate rate).run (past ++ [time]) = .ok (before ++ [allowance], t) →
      allowance.cycles = (past.sum % cyclePeriod + time) / cyclePeriod % countLimit ∧
      allowance.ticks = (past.sum % tickPeriod + time) / tickPeriod % countLimit := by
  refine ⟨fun times hshort => keepsUp_iff_uncut hrate hshort, fun times h => ?_,
    fun past time before allowance t h => ?_⟩
  · obtain ⟨allowances, t, hrun, hc, ht⟩ := h times (List.prefix_refl _)
    obtain ⟨hcycles, hticks⟩ := accounts_of_run hrun
    exact ⟨allowances, t, hrun, (hcycles.eq_div_and_eq_mod hc).1,
      (hticks.eq_div_and_eq_mod ht).1⟩
  · obtain ⟨before', t₀, allowance', hrun, hcall, hallowances⟩ := run_concat_eq_ok_iff.mp h
    cases (List.append_inj' hallowances rfl).2
    obtain ⟨-, rfl, -⟩ := elapse_eq_ok_iff.mp hcall
    obtain ⟨hcycles, hticks⟩ := accounts_of_run hrun
    exact ⟨hcycles.counts_eq (cycles_period_pos hrate) time, hticks.counts_eq (ticks_period_pos rate) time⟩

/-- The longest call of a period of one nanosecond that is not cut, and one more nanosecond. -/
theorem keepsUp_iff_longest_uncut :
    second ≤ second ∧ KeepsUp second [4294967295, 1] ∧
      ∃ allowances t, (ofRate second).run [4294967295, 1] = .ok (allowances, t) ∧
        totalCycles allowances = 4294967296 := by
  have hrate : second ≤ second := Nat.le_refl _
  obtain ⟨hkeeps, htotals, -⟩ := keepsUp_iff second hrate
  have huncut (period : Nat) (h : 4294967295 < countLimit * period)
      (h' : 4294967295 % period + 1 < countLimit * period) : Uncut period [4294967295, 1] := by
    have hfirst : Uncut period ([] ++ [4294967295]) :=
      uncut_concat_iff.mpr ⟨uncut_nil period, by simpa using h⟩
    have hboth : Uncut period ([4294967295] ++ [1]) :=
      uncut_concat_iff.mpr ⟨hfirst, by simpa using h'⟩
    exact hboth
  have h := (hkeeps [4294967295, 1] (by decide)).mpr
    ⟨huncut _ (by decide) (by decide), huncut _ (by decide) (by decide)⟩
  obtain ⟨allowances, t, hrun, hcycles, -⟩ := htotals _ h
  exact ⟨hrate, h, allowances, t, hrun, hcycles⟩

/-- One nanosecond more: of a period of one nanosecond nothing is handed out, then or later. And at one cycle a
second the time that stays owed makes a second call crash. -/
theorem long_calls_fall_behind :
    (∀ time ∈ [4294967296, 0], time ≤ longestDuration - second) ∧
    (ofRate second).run [4294967296, 0] =
      .ok ([⟨0, 257⟩, ⟨0, 0⟩], ⟨⟨1, 4294967296⟩, ⟨16666666, 11634134⟩⟩) ∧
    ¬ KeepsUp second [4294967296, 0] ∧
    (ofRate 1).run [longestDuration - second, longestDuration - second] = .error .durationOverflow := by
  have hrun : (ofRate second).run [4294967296, 0] =
      .ok ([⟨0, 257⟩, ⟨0, 0⟩], ⟨⟨1, 4294967296⟩, ⟨16666666, 11634134⟩⟩) := by decide +kernel
  refine ⟨by decide, hrun, fun h => ?_, by decide +kernel⟩
  obtain ⟨allowances, t, hsame, hcycles, -⟩ := h _ (List.prefix_refl _)
  cases hrun.symm.trans hsame
  exact absurd hcycles (by decide)

/-! ## Which rates can be used -/

/-- There is a cycle period, and calls whose times make a duration together have a budget each. -/
def Usable (rate : Nat) : Prop :=
  0 < (ofRate rate).cycles.period ∧ ∀ times, times.sum ≤ longestDuration →
    ∃ allowances t, (ofRate rate).run times = .ok (allowances, t) ∧ allowances.length = times.length

/-- Calls return as long as the time that has passed is a duration. -/
theorem run_of_sum_le (hc : 0 < t.cycles.period) (ht : 0 < t.ticks.period)
    (hcycles : t.cycles.owed + times.sum ≤ longestDuration)
    (hticks : t.ticks.owed + times.sum ≤ longestDuration) :
    ∃ allowances t', t.run times = .ok (allowances, t') ∧ allowances.length = times.length := by
  induction times generalizing t with
  | nil => exact ⟨[], t, rfl, rfl⟩
  | cons time rest ih =>
    rw [List.sum_cons] at hcycles hticks
    have hfits : t.SumsFit time := ⟨by omega, by omega⟩
    have helapse := elapse_of_sumsFit hc ht hfits
    -- what a call leaves owed is part of what it was asked for
    have hcsettle : (t.cycles.settle time).owed ≤ t.cycles.owed + time := Nat.sub_le _ _
    have htsettle : (t.ticks.settle time).owed ≤ t.ticks.owed + time := Nat.sub_le _ _
    obtain ⟨allowances, t', hrun, hlength⟩ := ih (t := ⟨t.cycles.settle time, t.ticks.settle time⟩) hc ht
      (by dsimp only; omega) (by dsimp only; omega)
    refine ⟨⟨t.cycles.counts time, t.ticks.counts time⟩ :: allowances, t', ?_, congrArg (· + 1) hlength⟩
    simp only [run, helapse, hrun, bind, Except.bind]
    rfl

theorem cycles_period_pos_iff : 0 < (ofRate rate).cycles.period ↔ rate ≤ second := by
  refine ⟨fun h => ?_, cycles_period_pos⟩
  have hle : max rate 1 ≤ second := Nat.le_of_not_lt fun hlt => Nat.ne_of_gt h (Nat.div_eq_of_lt hlt)
  exact (Nat.max_le.mp hle).1

theorem elapse_of_period_eq_zero (hc : t.cycles.period = 0) (h : t.SumsFit time) :
    t.elapse time = .error .divisionByZero := by
  simp [elapse, bind, Except.bind, Meter.credit, Meter.drain, hc, h.1, h.2]

/-- A rate can be used exactly if it is at most a thousand million. Above, there is no period, and the first call
divides by it. -/
theorem usable_iff (rate : Nat) :
    (Usable rate ↔ rate ≤ second) ∧
    (second < rate → ∀ time rest, time ≤ longestDuration →
      (ofRate rate).run (time :: rest) = .error .divisionByZero) := by
  refine ⟨⟨fun h => cycles_period_pos_iff.mp h.1, fun hrate => ?_⟩, fun hrate time rest htime => ?_⟩
  · refine ⟨cycles_period_pos hrate, fun times hsum => ?_⟩
    have hfits : 0 + times.sum ≤ longestDuration := by rwa [Nat.zero_add]
    exact run_of_sum_le (cycles_period_pos hrate) (ticks_period_pos rate) hfits hfits
  · have hzero : (ofRate rate).cycles.period = 0 :=
      Nat.eq_zero_of_not_pos fun hpos => Nat.not_le_of_lt hrate (cycles_period_pos_iff.mp hpos)
    have hfits : 0 + time ≤ longestDuration := by rwa [Nat.zero_add]
    rw [run, elapse_of_period_eq_zero hzero ⟨hfits, hfits⟩]
    rfl

/-- The least rate of 32 bits that cannot be used. -/
theorem fast_rate_divides_by_zero :
    1000000001 < 2 ^ 32 ∧ ¬ Usable 1000000001 ∧ (ofRate 1000000001).run [0] = .error .divisionByZero := by
  refine ⟨by decide, fun h => ?_, by decide +kernel⟩
  exact absurd h.1 (by decide)

end Tempo
end Chip8
