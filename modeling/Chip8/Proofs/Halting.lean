import Chip8.Proofs.Footprint

/-!
# Halting is permanent

The first fault of a step halts the machine, and nothing resumes it. From then on every step is refused with
the address of the instruction that failed, and nothing that a program can see of itself changes any more
(`Inert`). Loading, ticking and keys never ask the halted flag (`perform_resumed`): what they do to memory,
timers and keypad, and what they answer, is the same as on the machine with the flag cleared.

* `step_of_running`: a step of a running machine succeeds and leaves it running, or halts it with a fault
  that is not a refusal.
* `staysHalted`: all that a list of requests finds on a halted machine.
* `succeeds_or_fails`: the steps of a run succeed up to the first fault, and then find the machine halted.
* `halting_is_permanent`: both, for a machine in any state.
-/
namespace Chip8

/-- Whether a request is a step. -/
def Operation.isStep : Operation → Bool
  | .step => true
  | _ => false

/-- Two replies give the same result, and leave the same memory, timers and keypad. -/
structure SameEffect (r r' : Reply) : Prop where
  result : r.result = r'.result
  memory : r.machine.memory = r'.machine.memory
  delay : r.machine.delay = r'.machine.delay
  sound : r.machine.sound = r'.machine.sound
  keypad : r.machine.keypad = r'.machine.keypad

namespace Machine

/-- The results of the steps among a list of requests, in order. -/
def stepResults (m : Machine) : List Operation → List (Except Stop Unit)
  | [] => []
  | op :: rest =>
    (if op.isStep then [(m.perform op).result] else []) ++ stepResults (m.perform op).machine rest

/-- The machine with the halted flag cleared. -/
def resumed (m : Machine) : Machine := { m with halted := false }

/-- From one machine to the next only memory, timers and keypad have changed. -/
structure Inert (m m' : Machine) : Prop where
  pc : m'.pc = m.pc
  registers : m'.registers = m.registers
  index : m'.index = m.index
  stack : m'.stack = m.stack
  screen : m'.screen = m.screen
  random : m'.random = m.random
  dialect : m'.dialect = m.dialect
  halted : m'.halted = m.halted

/-- What a list of requests finds on a machine that is halted and stays so. -/
structure StaysHalted (m : Machine) (ops : List Operation) : Prop where
  /-- Every step is refused with the address at which the machine halted. -/
  steps : ∀ r ∈ m.stepResults ops, r = .error (.fault (.halted m.pc))
  inert : ∀ past, past <+: ops → m.Inert (m.run past)
  /-- What is no step does what it would do on the machine as it is then, not halted. -/
  others : ∀ past op, past ++ [op] <+: ops → op.isStep = false →
    SameEffect ((m.run past).perform op) ((m.run past).resumed.perform op)

/-- All steps of a run succeed, and leave the machine running. -/
def Succeeds (m : Machine) (ops : List Operation) : Prop :=
  (∀ r ∈ m.stepResults ops, r = .ok ()) ∧ (m.run ops).halted = false

/-- All steps before a certain one succeed; that one fails with a fault of its own, and what comes later
finds the machine halted at the instruction that failed. -/
structure FailsAfter (m : Machine) (before later : List Operation) (f : Fault) : Prop where
  succeeds : m.Succeeds before
  result : (m.run before).step.result = .error (.fault f)
  not_refused : ∀ p, f ≠ .halted p
  machine : (m.run before).step.machine = { m.run before with halted := true }
  stays : StaysHalted { m.run before with halted := true } later

variable {m m' m'' : Machine}

theorem Inert.refl (m : Machine) : m.Inert m := ⟨rfl, rfl, rfl, rfl, rfl, rfl, rfl, rfl⟩

theorem Inert.trans (h : m.Inert m') (h' : m'.Inert m'') : m.Inert m'' where
  pc := h'.pc.trans h.pc
  registers := h'.registers.trans h.registers
  index := h'.index.trans h.index
  stack := h'.stack.trans h.stack
  screen := h'.screen.trans h.screen
  random := h'.random.trans h.random
  dialect := h'.dialect.trans h.dialect
  halted := h'.halted.trans h.halted

/-! ## One request -/

/-- Loading, ticking and keys change memory, timers and keypad. -/
theorem inert_perform_of_not_step {op : Operation} (hop : op.isStep = false) :
    m.Inert (m.perform op).machine := by
  rcases perform_cases m op with rfl | ⟨_, _, _, _, hm⟩
  · cases hop
  · rw [hm]
    exact ⟨rfl, rfl, rfl, rfl, rfl, rfl, rfl, rfl⟩

/-- Loading, ticking and keys do not ask whether the machine is halted. -/
theorem perform_resumed {op : Operation} (hop : op.isStep = false) :
    SameEffect (m.perform op) (m.resumed.perform op) := by
  cases op with
  | load image =>
    have hmemory : m.resumed.memory = m.memory := rfl
    simp only [perform, load, hmemory]
    cases m.memory.load image <;> exact ⟨rfl, rfl, rfl, rfl, rfl⟩
  | step => cases hop
  | tick ticks => exact ⟨rfl, rfl, rfl, rfl, rfl⟩
  | setKey key pressed =>
    have hkeypad : m.resumed.keypad = m.keypad := rfl
    simp only [perform, setKey, hkeypad]
    cases m.keypad.set key pressed <;> exact ⟨rfl, rfl, rfl, rfl, rfl⟩

theorem step_of_halted (h : m.halted = true) : m.step = ⟨m, [], .error (.fault (.halted m.pc))⟩ := by
  unfold step
  rw [if_pos h]

/-- A step of a running machine leaves it running, or halts it with a fault that is not a refusal. -/
theorem step_of_running (hd : m.stack.depth ≤ stackFrames) (h : m.halted = false) :
    m.step.result = .ok () ∧ m.step.machine.halted = false ∨
      ∃ f, m.step.result = .error (.fault f) ∧ (∀ p, f ≠ .halted p) ∧
        m.step.machine = { m with halted := true } := by
  rcases step_cases hd with ⟨f, hv, -, hresult, hm⟩ | ⟨w, i, -, -, -, -, hresult, hm⟩
  · refine .inr ⟨f, hresult, ?_, hm⟩
    have hfault := (verdict_error_iff_faults h).mp hv
    intro p hp
    rw [hp] at hfault
    cases hfault
  · refine .inl ⟨hresult, ?_⟩
    rw [hm, (rest_after m i).2.2, h]

/-! ## After the fault -/

theorem inert_perform (h : m.halted = true) (op : Operation) : m.Inert (m.perform op).machine := by
  cases hop : op.isStep with
  | false => exact inert_perform_of_not_step hop
  | true =>
    cases op with
    | step =>
      rw [perform, step_of_halted h]
      exact .refl m
    | _ => cases hop

theorem inert_run (h : m.halted = true) (ops : List Operation) : m.Inert (m.run ops) :=
  run_induction (fun op _ _ hm => hm.trans (inert_perform (hm.halted.trans h) op)) (.refl m)

theorem inert_run_of_no_step {ops : List Operation} (h : ∀ op ∈ ops, op.isStep = false) :
    m.Inert (m.run ops) :=
  run_induction (fun op hop _ hm => hm.trans (inert_perform_of_not_step (h op hop))) (.refl m)

theorem stepResults_of_halted (h : m.halted = true) (ops : List Operation) :
    ∀ r ∈ m.stepResults ops, r = .error (.fault (.halted m.pc)) := by
  induction ops generalizing m with
  | nil => simp [stepResults]
  | cons op rest ih =>
    have hop := inert_perform h op
    have hrest := ih (hop.halted.trans h)
    rw [hop.pc] at hrest
    rw [stepResults, List.forall_mem_append]
    refine ⟨?_, hrest⟩
    cases op with
    | step => simp [Operation.isStep, perform, step_of_halted h]
    | _ => simp [Operation.isStep]

theorem staysHalted (h : m.halted = true) (ops : List Operation) : m.StaysHalted ops where
  steps := stepResults_of_halted h ops
  inert past _ := inert_run h past
  others _ _ _ hop := perform_resumed hop

/-! ## The whole run -/

/-- A request that is no step, or a step that succeeds, comes before a run that succeeds. -/
theorem Succeeds.cons {op : Operation} {rest : List Operation}
    (hop : op.isStep = true → (m.perform op).result = .ok ())
    (h : (m.perform op).machine.Succeeds rest) : m.Succeeds (op :: rest) := by
  refine ⟨?_, h.2⟩
  rw [stepResults, List.forall_mem_append]
  refine ⟨?_, h.1⟩
  cases hstep : op.isStep with
  | true => simp [hop hstep]
  | false => simp

theorem FailsAfter.cons {op : Operation} {before later : List Operation} {f : Fault}
    (hop : op.isStep = true → (m.perform op).result = .ok ())
    (h : (m.perform op).machine.FailsAfter before later f) : m.FailsAfter (op :: before) later f :=
  ⟨h.succeeds.cons hop, h.result, h.not_refused, h.machine, h.stays⟩

/-- A running machine succeeds in all steps, or up to a first one that fails. -/
theorem succeeds_or_fails (hd : m.stack.depth ≤ stackFrames) (h : m.halted = false)
    (ops : List Operation) : m.Succeeds ops ∨
      ∃ before later f, ops = before ++ .step :: later ∧ m.FailsAfter before later f := by
  induction ops generalizing m with
  | nil => exact .inl ⟨by simp [stepResults], h⟩
  | cons op rest ih =>
    have hrest (hrunning : (m.perform op).machine.halted = false) := ih (depth_le_perform hd op) hrunning
    -- a request that leaves the machine running is put before whatever the rest comes to
    have hcons (hop : op.isStep = true → (m.perform op).result = .ok ())
        (hrunning : (m.perform op).machine.halted = false) : m.Succeeds (op :: rest) ∨
          ∃ before later f, op :: rest = before ++ .step :: later ∧ m.FailsAfter before later f := by
      rcases hrest hrunning with hok | ⟨before, later, f, rfl, hfails⟩
      · exact .inl (hok.cons hop)
      · exact .inr ⟨op :: before, later, f, rfl, hfails.cons hop⟩
    cases hstep : op.isStep with
    | false =>
      have hkeep := (inert_perform_of_not_step (m := m) hstep).halted
      exact hcons (fun hop => by rw [hstep] at hop; cases hop) (hkeep.trans h)
    | true =>
      cases op with
      | step =>
        rcases step_of_running hd h with ⟨hok, hrunning⟩ | ⟨f, herror, hf, hm⟩
        · exact hcons (fun _ => hok) hrunning
        · have hnone : m.Succeeds [] := ⟨by simp [stepResults], h⟩
          exact .inr ⟨[], rest, f, rfl, hnone, herror, hf, hm, staysHalted rfl rest⟩
      | _ => cases hstep

/-- On a halted machine every step is refused and nothing but memory, timers and keypad changes, these as if
it were not halted. On any other the steps succeed, or do so up to a first one that fails, which leaves the
machine halted. -/
theorem halting_is_permanent (m : Machine) (hd : m.stack.depth ≤ 16) (ops : List Operation) :
    (m.halted = true → m.StaysHalted ops) ∧
      (m.halted = false → m.Succeeds ops ∨
        ∃ before later f, ops = before ++ .step :: later ∧ m.FailsAfter before later f) :=
  ⟨fun h => staysHalted h ops, fun h => succeeds_or_fails hd h ops⟩

/-- A program that puts a constant and then returns from no call. -/
def returnFromNoCall : List UInt8 := [0x60, 0x05, 0x00, 0xEE]

/-- Steps to the fault and past it, with requests of every other kind before and behind. -/
def returnFromNoCallRun : List Operation :=
  [.load returnFromNoCall, .setKey 3 true, .step, .step, .load [0x12, 0x00], .tick 1, .step, .setKey 16 true,
    .step]

theorem halting_is_permanent_no_call :
    let m := new .classic (.ofSeed 0)
    let failed := m.run returnFromNoCallRun
    m.stack.depth ≤ 16 ∧ m.halted = false ∧
      (∃ before later f, returnFromNoCallRun = before ++ .step :: later ∧ m.FailsAfter before later f) ∧
      failed.stack.depth ≤ 16 ∧ failed.halted = true ∧ failed.pc = 0x202 ∧
      failed.StaysHalted [.load returnFromNoCall, .step] := by
  have hrun :
      let m := new .classic (.ofSeed 0)
      let failed := m.run returnFromNoCallRun
      m.stack.depth ≤ 16 ∧ m.halted = false ∧
        failed.stack.depth ≤ 16 ∧ failed.halted = true ∧ failed.pc = 0x202 := by
    decide +kernel
  -- the closed machine must not be evaluated again
  generalize new .classic (.ofSeed 0) = m at hrun ⊢
  obtain ⟨hd, hh, hdfailed, hfailed, hpc⟩ := hrun
  refine ⟨hd, hh, ?_, hdfailed, hfailed, hpc, (halting_is_permanent _ hdfailed _).1 hfailed⟩
  rcases (halting_is_permanent m hd returnFromNoCallRun).2 hh with hok | hfails
  · exact absurd (hok.2.symm.trans hfailed) (by decide)
  · exact hfails

end Machine
end Chip8
