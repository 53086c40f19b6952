import Chip8.Proofs.Footprint

/-!
# When the timers tick does not matter

Ticks come from outside, between the steps. Three words touch the timers: `Fx07` reads the delay timer, `Fx15` and
`Fx18` set one of them (`Word.UsesTimers`). As long as none of these is carried out, a tick can be moved past every
other request, and two batches of ticks are one: a countdown that stops at zero is subtraction on the naturals. So
a run comes to the same as the requests that are no ticks, with all the ticks at once on what they leave.

`Machine.aged` lets any number of ticks pass at once, also more than one request can ask for.

* `Countdown.elapse_eq`, `Countdown.after_after`: a batch of ticks, and two of them.
* `perform_aged`: a tick past one request that does not use the timers.
* `run_aged`: all ticks past a whole run.
* `timer_schedule_independent`: two runs that differ in their ticks only, as many in both.
-/
namespace Chip8

/-- Whether a request is ticks of the timers. -/
def Operation.isTick : Operation → Bool
  | .tick _ => true
  | _ => false

/-- The ticks of a request. -/
def Operation.ticks : Operation → Nat
  | .tick n => n.toNat
  | _ => 0

/-- The ticks of a list of requests, all together. -/
def totalTicks : List Operation → Nat
  | [] => 0
  | op :: rest => op.ticks + totalTicks rest

/-- The requests of a list that are no ticks, in order. -/
def untimed (ops : List Operation) : List Operation := ops.filter (!·.isTick)

/-- The words that read or set a timer. -/
def Word.UsesTimers (w : Word) : Prop :=
  w.family = 0xF ∧ (w.kk.toNat = 0x07 ∨ w.kk.toNat = 0x15 ∨ w.kk.toNat = 0x18)

instance (w : Word) : Decidable w.UsesTimers := inferInstanceAs (Decidable (_ ∧ _))

theorem Operation.ticks_eq_zero {op : Operation} (h : op.isTick = false) : op.ticks = 0 := by
  cases op with
  | tick n => cases h
  | _ => rfl

theorem untimed_cons_of_not_tick {op : Operation} (h : op.isTick = false) (rest : List Operation) :
    untimed (op :: rest) = op :: untimed rest := by
  rw [untimed, List.filter_cons, h]
  rfl

/-! ## Countdowns -/

namespace Countdown

/-- What is left after any number of ticks. -/
def after (c : Countdown) (ticks : Nat) : Countdown := ⟨UInt8.ofNat (c.left.toNat - ticks)⟩

variable (c : Countdown)

theorem toNat_after (ticks : Nat) : (c.after ticks).left.toNat = c.left.toNat - ticks := by
  have := c.left.toNat_lt
  rw [after, UInt8.toNat_ofNat']
  omega

theorem after_zero : c.after 0 = c := by
  have h := c.toNat_after 0
  rw [Nat.sub_zero, UInt8.toNat_inj] at h
  exact congrArg mk h

theorem after_after (a b : Nat) : (c.after a).after b = c.after (a + b) := by
  rw [after, toNat_after, Nat.sub_sub]
  rfl

theorem elapse_eq (ticks : UInt8) : c.elapse ticks = c.after ticks.toNat := by
  refine congrArg mk (UInt8.toNat_inj.mp ?_)
  refine Eq.trans ?_ (c.toNat_after ticks.toNat).symm
  by_cases h : ticks ≤ c.left
  · rw [if_pos h, UInt8.toNat_sub_of_le _ _ h]
  · have hlt := UInt8.lt_iff_toNat_lt.mp (UInt8.not_le.mp h)
    rw [if_neg h, UInt8.toNat_zero]
    omega

end Countdown

namespace Machine

/-- The machine after any number of ticks. -/
def aged (m : Machine) (ticks : Nat) : Machine :=
  { m with delay := m.delay.after ticks, sound := m.sound.after ticks }

/-- The results of the requests of a list that are no ticks, in order. -/
def answers (m : Machine) : List Operation → List (Except Stop Unit)
  | [] => []
  | op :: rest =>
    (if op.isTick then [] else [(m.perform op).result]) ++ answers (m.perform op).machine rest

variable {m : Machine} {op : Operation}

theorem aged_zero (m : Machine) : m.aged 0 = m := by
  rw [aged, Countdown.after_zero, Countdown.after_zero]

theorem aged_aged (m : Machine) (a b : Nat) : (m.aged a).aged b = m.aged (a + b) := by
  simp only [aged, Countdown.after_after]

theorem tick_eq_aged (m : Machine) (ticks : UInt8) : m.tick ticks = m.aged ticks.toNat := by
  simp only [tick, aged, Countdown.elapse_eq]

/-- Ticks one by one are as good as all at once. -/
theorem run_single_ticks (m : Machine) (n : Nat) : m.run (List.replicate n (.tick 1)) = m.aged n := by
  induction n generalizing m with
  | zero => exact m.aged_zero.symm
  | succ n ih =>
    have hone : (m.perform (.tick 1)).machine = m.aged 1 := m.tick_eq_aged 1
    rw [List.replicate_succ, run, hone, ih, aged_aged, Nat.add_comm]

/-! ## A tick past one request -/

theorem verdict_aged (m : Machine) (n : Nat) : (m.aged n).verdict = m.verdict := rfl

theorem after_aged {w : Word} {i : Instruction} (hi : i.Row w) (hw : ¬ w.UsesTimers) (n : Nat) :
    (m.aged n).after i = (m.after i).aged n := by
  cases i with
  | readDelay x => exact absurd ⟨hi.1, .inl hi.2.1⟩ hw
  | setDelay x => exact absurd ⟨hi.1, .inr (.inl hi.2.1)⟩ hw
  | setSound x => exact absurd ⟨hi.1, .inr (.inr hi.2.1)⟩ hw
  | awaitKey x => simp only [after, Instruction.change_awaitKey]; rfl
  | _ => rfl

theorem result_step_aged (hd : m.stack.depth ≤ stackFrames) (n : Nat) :
    (m.aged n).step.result = m.step.result := by
  have hd' : (m.aged n).stack.depth ≤ stackFrames := hd
  rw [result_step hd', result_step hd, verdict_aged]

theorem step_aged (hd : m.stack.depth ≤ stackFrames)
    (h : ∀ w, m.carried .step = some w → ¬ w.UsesTimers) (n : Nat) :
    (m.aged n).step.machine = m.step.machine.aged n := by
  have hd' : (m.aged n).stack.depth ≤ stackFrames := hd
  have hverdict := m.verdict_aged n
  rcases step_cases hd with ⟨f, hv, -, -, hm⟩ | ⟨w, i, hv, hw, hi, -, -, hm⟩
  · rw [(step_of_verdict_error hd' (hverdict.trans hv)).2, hm]
    rfl
  · rw [(step_of_verdict_ok hd' (hverdict.trans hv)).2, hm]
    exact after_aged hi (h w hw) n

/-- A request that does not use the timers does the same before ticks and after them. -/
theorem perform_aged (hd : m.stack.depth ≤ stackFrames) (hop : op.isTick = false)
    (h : ∀ w, m.carried op = some w → ¬ w.UsesTimers) (n : Nat) :
    ((m.aged n).perform op).result = (m.perform op).result ∧
      ((m.aged n).perform op).machine = (m.perform op).machine.aged n := by
  cases op with
  | load image =>
    have hmemory : (m.aged n).memory = m.memory := rfl
    simp only [perform, load, hmemory]
    cases m.memory.load image <;> exact ⟨rfl, rfl⟩
  | step => exact ⟨result_step_aged hd n, step_aged hd h n⟩
  | tick ticks => cases hop
  | setKey key pressed =>
    have hkeypad : (m.aged n).keypad = m.keypad := rfl
    simp only [perform, setKey, hkeypad]
    cases m.keypad.set key pressed <;> exact ⟨rfl, rfl⟩

theorem carried_aged (hd : m.stack.depth ≤ stackFrames) (op : Operation) (n : Nat) :
    (m.aged n).carried op = m.carried op := by
  have hfetch : (m.aged n).fetch = m.fetch := rfl
  cases op with
  | step => simp only [carried, result_step_aged hd, hfetch]
  | _ => rfl

/-! ## All ticks past a run -/

/-- The words of a run are carried out without its ticks too, as long as none of them uses the timers. -/
theorem untimed_of_executed (hd : m.stack.depth ≤ stackFrames) (n : Nat) (ops : List Operation)
    (h : ∀ e ∈ (m.aged n).executed ops, ¬ e.2.UsesTimers) :
    ∀ e ∈ m.executed (untimed ops), ¬ e.2.UsesTimers := by
  induction ops generalizing m n with
  | nil => exact fun _ he => by cases he
  | cons op rest ih =>
    obtain ⟨hfirst, hrest⟩ := forall_executed_cons.mp h
    cases hop : op.isTick with
    | true =>
      cases op with
      | tick ticks =>
        have hm : ((m.aged n).perform (.tick ticks)).machine = m.aged (n + ticks.toNat) :=
          (tick_eq_aged _ _).trans (aged_aged _ _ _)
        rw [hm] at hrest
        exact ih hd _ hrest
      | _ => cases hop
    | false =>
      simp only [carried_aged hd] at hfirst
      rw [(perform_aged hd hop hfirst n).2] at hrest
      rw [untimed_cons_of_not_tick hop]
      exact forall_executed_cons.mpr ⟨hfirst, ih (depth_le_perform hd op) n hrest⟩

/-- Ticks before and during a run are as good as all of them after it. -/
theorem run_aged (hd : m.stack.depth ≤ stackFrames) (n : Nat) (ops : List Operation)
    (h : ∀ e ∈ m.executed (untimed ops), ¬ e.2.UsesTimers) :
    (m.aged n).answers ops = m.answers (untimed ops) ∧
      (m.aged n).run ops = (m.run (untimed ops)).aged (n + totalTicks ops) := by
  induction ops generalizing m n with
  | nil => exact ⟨rfl, rfl⟩
  | cons op rest ih =>
    rw [totalTicks]
    cases hop : op.isTick with
    | true =>
      cases op with
      | tick ticks =>
        have hm : ((m.aged n).perform (.tick ticks)).machine = m.aged (n + ticks.toNat) :=
          (tick_eq_aged _ _).trans (aged_aged _ _ _)
        obtain ⟨hanswers, hrun⟩ := ih hd (n + ticks.toNat) h
        rw [Nat.add_assoc] at hrun
        exact ⟨by rw [answers, hm]; exact hanswers, by rw [run, hm]; exact hrun⟩
      | _ => cases hop
    | false =>
      rw [untimed_cons_of_not_tick hop] at h ⊢
      obtain ⟨hfirst, hrest⟩ := forall_executed_cons.mp h
      obtain ⟨hresult, hm⟩ := perform_aged hd hop hfirst n
      obtain ⟨hanswers, hrun⟩ := ih (depth_le_perform hd op) n hrest
      rw [Operation.ticks_eq_zero hop, Nat.zero_add]
      refine ⟨?_, by rw [run, run, hm, hrun]⟩
      rw [answers, answers, hm, hanswers, hresult]

/-! ## The timers over a run -/

theorem timers_perform (hd : m.stack.depth ≤ stackFrames)
    (h : ∀ w, m.carried op = some w → ¬ w.UsesTimers) :
    (m.perform op).machine.delay = m.delay.after op.ticks ∧
      (m.perform op).machine.sound = m.sound.after op.ticks := by
  cases op with
  | tick ticks => exact ⟨m.delay.elapse_eq ticks, m.sound.elapse_eq ticks⟩
  | step =>
    simp only [Operation.ticks, Countdown.after_zero, perform]
    rcases step_cases hd with ⟨f, -, -, -, hm⟩ | ⟨w, i, -, hw, -⟩
    · rw [hm]
      exact ⟨rfl, rfl⟩
    · have hfoot := footprint_step hd hw
      constructor <;> by_contra hne
      · obtain ⟨hf, hk⟩ := hfoot.delay hne
        exact h w hw ⟨hf, .inr (.inl hk)⟩
      · obtain ⟨hf, hk⟩ := hfoot.sound hne
        exact h w hw ⟨hf, .inr (.inr hk)⟩
  | load image =>
    simp only [Operation.ticks, Countdown.after_zero, perform, load]
    split <;> exact ⟨rfl, rfl⟩
  | setKey key pressed =>
    simp only [Operation.ticks, Countdown.after_zero, perform, setKey]
    split <;> exact ⟨rfl, rfl⟩

/-- As long as no word uses them, the timers count down by the ticks and by nothing else. -/
theorem timers_run (hd : m.stack.depth ≤ stackFrames) (ops : List Operation)
    (h : ∀ e ∈ m.executed ops, ¬ e.2.UsesTimers) :
    (m.run ops).delay = m.delay.after (totalTicks ops) ∧
      (m.run ops).sound = m.sound.after (totalTicks ops) := by
  induction ops generalizing m with
  | nil => exact ⟨m.delay.after_zero.symm, m.sound.after_zero.symm⟩
  | cons op rest ih =>
    obtain ⟨hfirst, hrest⟩ := forall_executed_cons.mp h
    obtain ⟨hdelay, hsound⟩ := timers_perform hd hfirst
    obtain ⟨hdelay', hsound'⟩ := ih (depth_le_perform hd op) hrest
    rw [totalTicks, run, hdelay', hdelay, hsound', hsound]
    exact ⟨Countdown.after_after _ _ _, Countdown.after_after _ _ _⟩

/-- Two lists of requests that differ only in where their ticks are and how they are batched, as many in both, give
the same results and leave the same machine, as long as no word that is carried out uses the timers. The timers are
then lower by the ticks, down to zero; and on every machine a batch of ticks is that many single ones. -/
theorem timer_schedule_independent (m : Machine) (hd : m.stack.depth ≤ 16) (ops ops' : List Operation)
    (hsame : untimed ops = untimed ops') (hticks : totalTicks ops = totalTicks ops')
    (h : ∀ e ∈ m.executed ops, ¬ e.2.UsesTimers) :
    m.answers ops = m.answers ops' ∧ m.run ops = m.run ops' ∧
      (∀ past, past <+: ops →
        (m.run past).delay.left.toNat = m.delay.left.toNat - totalTicks past ∧
          (m.run past).sound.left.toNat = m.sound.left.toNat - totalTicks past) ∧
      ∀ (m' : Machine) (n : UInt8),
        m'.tick n = m'.run (List.replicate n.toNat (.tick 1)) ∧
          (m'.tick n).delay.left.toNat = m'.delay.left.toNat - n.toNat ∧
          (m'.tick n).sound.left.toNat = m'.sound.left.toNat - n.toNat := by
  have huntimed : ∀ e ∈ m.executed (untimed ops), ¬ e.2.UsesTimers :=
    untimed_of_executed hd 0 ops (m.aged_zero.symm ▸ h)
  obtain ⟨hanswers, hrun⟩ := run_aged hd 0 ops huntimed
  obtain ⟨hanswers', hrun'⟩ := run_aged hd 0 ops' (hsame ▸ huntimed)
  rw [aged_zero] at hanswers hrun hanswers' hrun'
  refine ⟨?_, ?_, ?_, ?_⟩
  · rw [hanswers, hanswers', hsame]
  · rw [hrun, hrun', hsame, hticks]
  · rintro past ⟨rest, rfl⟩
    rw [executed_append, List.forall_mem_append] at h
    obtain ⟨hdelay, hsound⟩ := timers_run hd past h.1
    rw [hdelay, hsound]
    exact ⟨Countdown.toNat_after _ _, Countdown.toNat_after _ _⟩
  · intro m' n
    rw [run_single_ticks, tick_eq_aged]
    exact ⟨rfl, Countdown.toNat_after _ _, Countdown.toNat_after _ _⟩

/-- A machine about to skip a word, with both timers running. -/
def skipAhead : Machine :=
  { new .classic (.ofSeed 0) with
    memory := Memory.blank.overlay imageStart [0x30, 0x00, 0x12, 0x00, 0x61, 0x07, 0x00, 0xEE]
    delay := ⟨200⟩, sound := ⟨255⟩ }

/-- Ticks in two batches, the second past the end of one timer, between steps of which the last one fails. -/
def ticksInBatches : List Operation := [.tick 180, .step, .setKey 3 true, .step, .tick 90, .step]

/-- As many ticks in three batches around the same requests. -/
def ticksAround : List Operation := [.step, .setKey 3 true, .tick 255, .step, .step, .tick 0, .tick 15]

theorem timer_schedule_independent_batches :
    skipAhead.stack.depth ≤ 16 ∧ untimed ticksInBatches = untimed ticksAround ∧
      totalTicks ticksInBatches = totalTicks ticksAround ∧
      (skipAhead.executed ticksInBatches).map Prod.snd = [0x3000, 0x6107] ∧
      (∀ e ∈ skipAhead.executed ticksInBatches, ¬ e.2.UsesTimers) ∧
      skipAhead.answers ticksInBatches = skipAhead.answers ticksAround ∧
      skipAhead.run ticksInBatches = skipAhead.run ticksAround ∧
      (skipAhead.run ticksInBatches).delay.left.toNat = 0 := by
  have hwords : (skipAhead.executed ticksInBatches).map Prod.snd = [0x3000, 0x6107] := by
    decide +kernel
  have hno : ∀ w ∈ [(0x3000 : Word), 0x6107], ¬ w.UsesTimers := by
    rw [List.forall_mem_cons, List.forall_mem_singleton]
    decide
  have h : ∀ e ∈ skipAhead.executed ticksInBatches, ¬ e.2.UsesTimers := by
    intro e he
    exact hno e.2 (hwords ▸ List.mem_map_of_mem he)
  have hd : skipAhead.stack.depth ≤ 16 := Nat.zero_le _
  obtain ⟨hanswers, hrun, hleft, -⟩ :=
    timer_schedule_independent skipAhead hd ticksInBatches ticksAround rfl rfl h
  exact ⟨hd, rfl, rfl, hwords, h, hanswers, hrun, (hleft _ (List.prefix_refl _)).1⟩

end Machine
end Chip8
