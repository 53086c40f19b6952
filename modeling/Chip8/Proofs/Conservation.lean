import Chip8.Pacing
import Mathlib.Algebra.Ring.Nat

/-!
# Pacing conserves time

What a meter hands out and what it still owes add up to the time that has passed, whatever the count of
periods is cut to: only periods that were counted are paid. As long as no count is cut, what is owed stays
below a period, so the counts are quotients of the time that has passed and do not depend on how it was
cut into frames.

A run is a list of calls (`Tempo.run`); what is asked of the tempo and the time of each call is said by
`EachCall`.

* `Guarded.elapse_eq`: with each operation on durations checked, a call does the same.
* `run_conserves`: handed out and owed is passed, for both meters and after any calls whose sums fit.
* `run_totals`: if no count is cut, what is handed out is a quotient of the time that has passed.
* `short_calls`: calls below four seconds have sums that fit and counts that are not cut.
* `pacing_conserves_time`: these together, from a tempo that owes nothing.
-/
namespace Chip8

/-- A computation that returned, taken apart. -/
theorem bind_eq_ok {ε α β : Type} {x : Except ε α} {f : α → Except ε β} {b : β} (h : x >>= f = .ok b) :
    ∃ a, x = .ok a ∧ f a = .ok b := by
  cases x with
  | error e => cases h
  | ok a => exact ⟨a, rfl, h⟩

/-! ## One meter -/

namespace Meter

variable (m : Meter) (time : Nat)

/-- The number of periods handed out after some time has passed. -/
def counts : Nat := (m.owed + time) / m.period % countLimit

/-- The meter after some time has passed and been handed out. -/
def settle : Meter := { m with owed := m.owed + time - m.period * m.counts time }

theorem period_mul_due_le : m.period * m.due ≤ m.owed :=
  calc m.period * m.due ≤ m.period * (m.owed / m.period) := Nat.mul_le_mul_left _ (Nat.mod_le _ _)
    _ ≤ m.owed := Nat.mul_div_le _ _

theorem counts_mul_period_add_owed :
    m.counts time * m.period + (m.settle time).owed = m.owed + time := by
  have hle : m.period * m.counts time ≤ m.owed + time :=
    period_mul_due_le { m with owed := m.owed + time }
  rw [settle, Nat.mul_comm]
  exact Nat.add_sub_cancel' hle

theorem settle_owed_lt (h : m.owed + time < countLimit * m.period) :
    (m.settle time).owed < m.period := by
  have hperiod : 0 < m.period := by
    rcases Nat.eq_zero_or_pos m.period with h0 | hpos
    · rw [h0, Nat.mul_zero] at h
      exact absurd h (Nat.not_lt_zero _)
    · exact hpos
  have hcount : m.counts time = (m.owed + time) / m.period :=
    Nat.mod_eq_of_lt (Nat.div_lt_of_lt_mul (by rwa [Nat.mul_comm] at h))
  have hmod := Nat.mod_lt (m.owed + time) hperiod
  have hdiv := Nat.div_add_mod (m.owed + time) m.period
  simp only [settle, hcount]
  omega

end Meter

/-!
## A call with every operation on durations checked

`sum` and `multiple` have no value past the longest duration, `difference` none below zero, and `quotient`
none by zero.
-/

namespace Guarded

def sum (a b : Nat) : Option Nat := if a + b ≤ longestDuration then some (a + b) else none

def multiple (a n : Nat) : Option Nat := if a * n ≤ longestDuration then some (a * n) else none

def difference (a b : Nat) : Option Nat := if b ≤ a then some (a - b) else none

def quotient (a b : Nat) : Option Nat := if b = 0 then none else some (a / b)

def drain (m : Meter) : Option (Nat × Meter) := do
  let periods := (← quotient m.owed m.period) % countLimit
  let paid ← multiple m.period periods
  let owed ← difference m.owed paid
  return (periods, { m with owed := owed })

/-- `Tempo.elapse` in the checked operations. -/
def elapse (t : Tempo) (time : Nat) : Option (Allowance × Tempo) := do
  let cycleDebt ← sum t.cycles.owed time
  let tickDebt ← sum t.ticks.owed time
  let (cycleCount, cycles) ← drain { t.cycles with owed := cycleDebt }
  let (tickCount, ticks) ← drain { t.ticks with owed := tickDebt }
  return (⟨cycleCount, tickCount⟩, ⟨cycles, ticks⟩)

theorem drain_eq (m : Meter) (h : m.owed ≤ longestDuration) : drain m = m.drain.toOption := by
  have hpaid := m.period_mul_due_le
  unfold drain Meter.drain quotient multiple difference
  by_cases h0 : m.period = 0
  · simp only [h0]
    rfl
  · -- what is paid is part of what is owed, so neither its product nor the difference fails
    simp only [h0, if_false, Option.bind_eq_bind, Option.bind_some]
    have hfit : m.period * m.due ≤ longestDuration := Nat.le_trans hpaid h
    change (if m.period * m.due ≤ longestDuration then some (m.period * m.due) else none).bind _ = _
    rw [if_pos hfit, Option.bind_some, if_pos hpaid]
    rfl

theorem elapse_eq (t : Tempo) (time : Nat) : elapse t time = (t.elapse time).toOption := by
  unfold elapse Tempo.elapse sum Meter.credit
  by_cases hc : t.cycles.owed + time ≤ longestDuration
  · by_cases ht : t.ticks.owed + time ≤ longestDuration
    · have hcycles := drain_eq { t.cycles with owed := t.cycles.owed + time } hc
      have hticks := drain_eq { t.ticks with owed := t.ticks.owed + time } ht
      rw [if_pos hc, if_pos ht, if_pos hc, if_pos ht]
      simp only [bind, Option.bind_some, Except.bind, hcycles, hticks]
      cases Meter.drain { t.cycles with owed := t.cycles.owed + time } with
      | error c => rfl
      | ok cycles => cases Meter.drain { t.ticks with owed := t.ticks.owed + time } <;> rfl
    · rw [if_pos hc, if_neg ht, if_pos hc, if_neg ht]
      rfl
  · rw [if_neg hc, if_neg hc]
    rfl

end Guarded

/-! ## Runs of one meter -/

namespace Meter

/-- The meter after some calls. -/
def settled (m : Meter) (times : List Nat) : Meter := times.foldl settle m

/-- The periods handed out over some calls. -/
def handed (m : Meter) : List Nat → Nat
  | [] => 0
  | time :: rest => m.counts time + (m.settle time).handed rest

theorem handed_mul_period_add_owed (m : Meter) (times : List Nat) :
    m.handed times * m.period + (m.settled times).owed = m.owed + times.sum := by
  induction times generalizing m with
  | nil => simp [handed, settled]
  | cons time rest ih =>
    have hcall := m.counts_mul_period_add_owed time
    -- the rest of the calls starts from what this one leaves owed
    have hrest := ih (m.settle time)
    rw [show (m.settle time).period = m.period from rfl] at hrest
    rw [handed, Nat.add_mul, List.sum_cons]
    change _ + ((m.settle time).settled rest).owed = _
    omega

/-- Every call leaves less than `countLimit` periods to hand out. -/
def Counted (m : Meter) : List Nat → Prop
  | [] => True
  | time :: rest => m.owed + time < countLimit * m.period ∧ (m.settle time).Counted rest

theorem settled_owed_lt {m : Meter} {times : List Nat} (h0 : m.owed < m.period)
    (h : m.Counted times) : (m.settled times).owed < m.period := by
  induction times generalizing m with
  | nil => exact h0
  | cons time rest ih => exact ih (m.settle_owed_lt time h.1) h.2

theorem handed_eq_div {m : Meter} {times : List Nat} (h0 : m.owed < m.period) (h : m.Counted times) :
    m.handed times = (m.owed + times.sum) / m.period := by
  have hlt := settled_owed_lt h0 h
  have hsum := m.handed_mul_period_add_owed times
  exact (Nat.div_eq_of_lt_le (by omega) (by rw [Nat.add_mul]; omega)).symm

end Meter

/-! ## Runs of a tempo -/

namespace Tempo

/-- Lets stretches of time pass one after the other. -/
def run (t : Tempo) : List Nat → Except Crash (List Allowance × Tempo)
  | [] => .ok ([], t)
  | time :: rest => do
    let (allowance, t) ← t.elapse time
    let (allowances, t) ← run t rest
    return (allowance :: allowances, t)

/-- The condition `R` is met at each call of a run, by the tempo before the call and the time of it. -/
def EachCall (R : Tempo → Nat → Prop) (t : Tempo) : List Nat → Prop
  | [] => True
  | time :: rest => R t time ∧ ∀ allowance t', t.elapse time = .ok (allowance, t') → EachCall R t' rest

/-- The sums of what is owed and the time that passes are durations. -/
def SumsFit (t : Tempo) (time : Nat) : Prop :=
  t.cycles.owed + time ≤ longestDuration ∧ t.ticks.owed + time ≤ longestDuration

/-- What is owed and the time that passes are less than `countLimit` periods together. -/
def CountsFit (t : Tempo) (time : Nat) : Prop :=
  t.cycles.owed + time < countLimit * t.cycles.period ∧
    t.ticks.owed + time < countLimit * t.ticks.period

def totalCycles (allowances : List Allowance) : Nat := (allowances.map Allowance.cycles).sum

def totalTicks (allowances : List Allowance) : Nat := (allowances.map Allowance.ticks).sum

variable {t : Tempo} {R : Tempo → Nat → Prop} {times : List Nat}

theorem EachCall.of_prefix (h : EachCall R t times) {past : List Nat} (hp : past <+: times) :
    EachCall R t past := by
  induction past generalizing t times with
  | nil => trivial
  | cons time rest ih =>
    obtain ⟨future, rfl⟩ := hp
    exact ⟨h.1, fun allowance t' he => ih (h.2 allowance t' he) (List.prefix_append rest future)⟩

theorem elapse_of_sumsFit (hc : 0 < t.cycles.period) (ht : 0 < t.ticks.period) {time : Nat}
    (h : t.SumsFit time) :
    t.elapse time = .ok (⟨t.cycles.counts time, t.ticks.counts time⟩,
      ⟨t.cycles.settle time, t.ticks.settle time⟩) := by
  have hc0 : t.cycles.period ≠ 0 := Nat.ne_of_gt hc
  have ht0 : t.ticks.period ≠ 0 := Nat.ne_of_gt ht
  simp only [elapse, bind, Except.bind, Meter.credit, Meter.drain, if_pos h.1, if_pos h.2, if_neg hc0,
    if_neg ht0]
  rfl

theorem run_of_sumsFit (hc : 0 < t.cycles.period) (ht : 0 < t.ticks.period)
    (h : EachCall SumsFit t times) :
    ∃ allowances, t.run times = .ok (allowances, ⟨t.cycles.settled times, t.ticks.settled times⟩) ∧
      totalCycles allowances = t.cycles.handed times ∧
      totalTicks allowances = t.ticks.handed times := by
  induction times generalizing t with
  | nil => exact ⟨[], rfl, rfl, rfl⟩
  | cons time rest ih =>
    have helapse := elapse_of_sumsFit hc ht h.1
    obtain ⟨allowances, hrun, hcycles, hticks⟩ := ih (t := ⟨t.cycles.settle time, t.ticks.settle time⟩)
      hc ht (h.2 _ _ helapse)
    refine ⟨⟨t.cycles.counts time, t.ticks.counts time⟩ :: allowances, ?_, ?_, ?_⟩
    · rw [run, helapse]
      change Except.bind (run _ rest) _ = _
      rw [hrun]
      rfl
    · rw [totalCycles, List.map_cons, List.sum_cons, Meter.handed, ← hcycles]
      rfl
    · rw [totalTicks, List.map_cons, List.sum_cons, Meter.handed, ← hticks]
      rfl

theorem counted_of_countsFit (hc : 0 < t.cycles.period) (ht : 0 < t.ticks.period)
    (h : EachCall SumsFit t times) (hcounts : EachCall CountsFit t times) :
    t.cycles.Counted times ∧ t.ticks.Counted times := by
  induction times generalizing t with
  | nil => exact ⟨trivial, trivial⟩
  | cons time rest ih =>
    have helapse := elapse_of_sumsFit hc ht h.1
    obtain ⟨hcycles, hticks⟩ := ih (t := ⟨t.cycles.settle time, t.ticks.settle time⟩) hc ht
      (h.2 _ _ helapse) (hcounts.2 _ _ helapse)
    exact ⟨⟨hcounts.1.1, hcycles⟩, ⟨hcounts.1.2, hticks⟩⟩

/-- Calls below four seconds need no longer durations and no higher counts than there are, if less than a
period of at most a second is owed before them. -/
theorem short_calls (hc : t.cycles.owed < t.cycles.period) (hc1 : t.cycles.period ≤ second)
    (ht : t.ticks.owed < t.ticks.period) (ht1 : t.ticks.period ≤ second)
    (h : ∀ time ∈ times, time < 4 * second) :
    EachCall SumsFit t times ∧ EachCall CountsFit t times := by
  induction times generalizing t with
  | nil => exact ⟨trivial, trivial⟩
  | cons time rest ih =>
    have htime := h time List.mem_cons_self
    have hrest : ∀ time ∈ rest, time < 4 * second := fun time hm => h time (List.mem_cons_of_mem _ hm)
    have hsecond : second = 1000000000 := rfl
    have hlongest : longestDuration = 18446744073709551615999999999 := rfl
    have hlimit : countLimit = 4294967296 := rfl
    have hsums : t.SumsFit time := ⟨by omega, by omega⟩
    -- what is owed is less than a period, and the `2 ^ 32 - 1` others last longer than four seconds
    have hcounts : t.CountsFit time := ⟨by rw [hlimit]; omega, by rw [hlimit]; omega⟩
    have helapse := elapse_of_sumsFit (Nat.zero_lt_of_lt hc) (Nat.zero_lt_of_lt ht) hsums
    have hnext := ih (t := ⟨t.cycles.settle time, t.ticks.settle time⟩)
      (t.cycles.settle_owed_lt time hcounts.1) hc1 (t.ticks.settle_owed_lt time hcounts.2) ht1 hrest
    refine ⟨⟨hsums, fun allowance t' he => ?_⟩, ⟨hcounts, fun allowance t' he => ?_⟩⟩
    · cases helapse.symm.trans he
      exact hnext.1
    · cases helapse.symm.trans he
      exact hnext.2

/-! ## From a tempo that owes nothing -/

variable {rate : Nat}

theorem cycles_period_pos (hrate : rate ≤ second) : 0 < (ofRate rate).cycles.period := by
  have hmax : max rate 1 ≤ second := Nat.max_le.mpr ⟨hrate, by decide⟩
  exact Nat.div_pos hmax (Nat.lt_of_lt_of_le Nat.zero_lt_one (Nat.le_max_right _ _))

theorem ticks_period_pos (rate : Nat) : 0 < (ofRate rate).ticks.period := by
  change 0 < second / ticksPerSecond
  decide

theorem run_conserves (hrate : rate ≤ second) (h : EachCall SumsFit (ofRate rate) times) :
    ∃ allowances t, (ofRate rate).run times = .ok (allowances, t) ∧
      totalCycles allowances * (second / max rate 1) + t.cycles.owed = times.sum ∧
      totalTicks allowances * 16666666 + t.ticks.owed = times.sum := by
  obtain ⟨allowances, hrun, hcycles, hticks⟩ :=
    run_of_sumsFit (cycles_period_pos hrate) (ticks_period_pos rate) h
  refine ⟨allowances, _, hrun, ?_, ?_⟩
  · have := (ofRate rate).cycles.handed_mul_period_add_owed times
    rw [← hcycles] at this
    simpa [ofRate, Meter.ofPeriod] using this
  · have := (ofRate rate).ticks.handed_mul_period_add_owed times
    rw [← hticks] at this
    simpa [ofRate, Meter.ofPeriod, second, ticksPerSecond] using this

theorem run_totals (hrate : rate ≤ second) (h : EachCall SumsFit (ofRate rate) times)
    (hcounts : EachCall CountsFit (ofRate rate) times) :
    ∃ allowances t, (ofRate rate).run times = .ok (allowances, t) ∧
      totalCycles allowances = times.sum / (second / max rate 1) ∧
      totalTicks allowances = times.sum / 16666666 := by
  have hc := cycles_period_pos hrate
  have ht := ticks_period_pos rate
  obtain ⟨allowances, hrun, hcycles, hticks⟩ := run_of_sumsFit hc ht h
  obtain ⟨hcounted, htcounted⟩ := counted_of_countsFit hc ht h hcounts
  refine ⟨allowances, _, hrun, ?_, ?_⟩
  · rw [hcycles, Meter.handed_eq_div hc hcounted]
    simp [ofRate, Meter.ofPeriod]
  · rw [hticks, Meter.handed_eq_div ht htcounted]
    simp [ofRate, Meter.ofPeriod, second, ticksPerSecond]

/-- A period that is rounded down hands out no less than the rate asks for. -/
theorem mul_rate_div_le (hrate : rate ≤ second) (total : Nat) :
    total * rate / second ≤ total / (second / max rate 1) := by
  have hperiod : 0 < second / max rate 1 := cycles_period_pos hrate
  rw [Nat.le_div_iff_mul_le hperiod]
  rcases Nat.eq_zero_or_pos rate with rfl | hpos
  · simp
  · rw [Nat.max_eq_left hpos]
    refine Nat.le_of_mul_le_mul_right ?_ hpos
    calc total * rate / second * (second / rate) * rate
        = total * rate / second * (second / rate * rate) := Nat.mul_assoc _ _ _
      _ ≤ total * rate / second * second := Nat.mul_le_mul_left _ (Nat.div_mul_le_self _ _)
      _ ≤ total * rate := Nat.div_mul_le_self _ _

/-- For a rate of at most a thousand million: with every operation on durations checked a call does the
same; after each call of a run whose sums fit, what was handed out and what is owed add up to the time that
has passed, for cycles and for ticks; if no count is cut, then the totals are the quotients of that time, the
same for every way to cut it and no less than the rate asks for; and calls below four seconds have sums that
fit and counts that are not cut. -/
theorem pacing_conserves_time (rate : Nat) (hrate : rate ≤ second) :
    (∀ t time, Guarded.elapse t time = (elapse t time).toOption) ∧
    (∀ times, EachCall SumsFit (ofRate rate) times → ∀ past, past <+: times →
      ∃ allowances t, (ofRate rate).run past = .ok (allowances, t) ∧
        totalCycles allowances * (second / max rate 1) + t.cycles.owed = past.sum ∧
        totalTicks allowances * 16666666 + t.ticks.owed = past.sum) ∧
    (∀ times, EachCall SumsFit (ofRate rate) times → EachCall CountsFit (ofRate rate) times →
      ∃ allowances t, (ofRate rate).run times = .ok (allowances, t) ∧
        totalCycles allowances = times.sum / (second / max rate 1) ∧
        totalTicks allowances = times.sum / 16666666 ∧
        times.sum * rate / second ≤ totalCycles allowances ∧
        ∀ times', EachCall SumsFit (ofRate rate) times' → EachCall CountsFit (ofRate rate) times' →
          times'.sum = times.sum → ∃ allowances' t', (ofRate rate).run times' = .ok (allowances', t') ∧
            totalCycles allowances' = totalCycles allowances ∧
            totalTicks allowances' = totalTicks allowances) ∧
    ∀ times, (∀ time ∈ times, time < 4 * second) →
      EachCall SumsFit (ofRate rate) times ∧ EachCall CountsFit (ofRate rate) times := by
  refine ⟨Guarded.elapse_eq, ?_, ?_, ?_⟩
  · intro times h past hpast
    exact run_conserves hrate (h.of_prefix hpast)
  · intro times h hcounts
    obtain ⟨allowances, t, hrun, hcycles, hticks⟩ := run_totals hrate h hcounts
    refine ⟨allowances, t, hrun, hcycles, hticks, ?_, ?_⟩
    · rw [hcycles]
      exact mul_rate_div_le hrate times.sum
    · intro times' h' hcounts' hsum
      obtain ⟨allowances', t', hrun', hcycles', hticks'⟩ := run_totals hrate h' hcounts'
      rw [hsum, ← hcycles] at hcycles'
      rw [hsum, ← hticks] at hticks'
      exact ⟨allowances', t', hrun', hcycles', hticks'⟩
  · intro times h
    refine short_calls (cycles_period_pos hrate) ?_ (ticks_period_pos rate) ?_ h
    · exact Nat.div_le_self _ _
    · exact Nat.div_le_self _ _

/-- Thirty-three milliseconds in one call and in two; and five seconds in one call of a period of one
nanosecond, where the count is cut and the rest stays owed. -/
theorem pacing_conserves_time_cuts :
    700 ≤ second ∧ second ≤ second ∧
    EachCall SumsFit (ofRate 700) [16000000, 17000000] ∧
    EachCall CountsFit (ofRate 700) [16000000, 17000000] ∧
    (∃ allowances t, (ofRate 700).run [16000000, 17000000] = .ok (allowances, t) ∧
      totalCycles allowances = 23 ∧ totalTicks allowances = 1 ∧
      ∃ allowances' t', (ofRate 700).run [33000000] = .ok (allowances', t') ∧
        totalCycles allowances' = totalCycles allowances ∧
        totalTicks allowances' = totalTicks allowances) ∧
    EachCall SumsFit (ofRate second) [5 * second] ∧ ¬ EachCall CountsFit (ofRate second) [5 * second] ∧
    ∃ allowances t, (ofRate second).run [5 * second] = .ok (allowances, t) ∧
      totalCycles allowances * (second / max second 1) + t.cycles.owed = 5 * second ∧
      totalTicks allowances * 16666666 + t.ticks.owed = 5 * second := by
  have hrate : 700 ≤ second := by decide
  obtain ⟨-, -, htotals, hshort⟩ := pacing_conserves_time 700 hrate
  obtain ⟨hsums, hcounts⟩ := hshort [16000000, 17000000] (by decide)
  obtain ⟨hsums', hcounts'⟩ := hshort [33000000] (by decide)
  obtain ⟨allowances, t, hrun, hcycles, hticks, -, hcut⟩ := htotals _ hsums hcounts
  have hlong : EachCall SumsFit (ofRate second) [5 * second] :=
    ⟨⟨by decide, by decide⟩, fun _ _ _ => trivial⟩
  have hmany : ¬ EachCall CountsFit (ofRate second) [5 * second] :=
    fun h => absurd h.1.1 (by decide)
  exact ⟨hrate, Nat.le_refl _, hsums, hcounts,
    ⟨allowances, t, hrun, hcycles, hticks, hcut _ hsums' hcounts' rfl⟩, hlong, hmany,
    (pacing_conserves_time second (Nat.le_refl _)).2.1 _ hlong _ (List.prefix_refl _)⟩

end Tempo
end Chip8
