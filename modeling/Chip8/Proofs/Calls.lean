import Chip8.Proofs.Reachable

/-!
# Calls and returns

`Machine.executes` is the instruction that a request carries out, and `Machine.history` the
instructions that a list of requests carries out. Seen through `CallStack.live`, a call appends the
address after it, a return takes the latest address off and continues there, and nothing else touches
the list (`live_perform`, `pc_of_ret`).

* `depth_run`: the depth is the number of calls carried out less the number of returns.
* `live_run`: a live frame stays where it is until a return brings the depth back below it.
* `calls_well_bracketed`: so the first return to the depth of a call continues after that call.
-/
namespace Chip8

namespace Instruction

/-- Whether an instruction is a call. -/
def isCall : Instruction → Bool
  | call _ => true
  | _ => false

/-- Whether an instruction is a return. -/
def isRet : Instruction → Bool
  | ret => true
  | _ => false

end Instruction

namespace Machine

/-- The instruction that a request carries out, if it does. -/
def executes (m : Machine) : Operation → Option Instruction
  | .step => match m.step.result, m.fetch with
    | .ok _, .ok w => w.decode?
    | _, _ => none
  | _ => none

/-- The instructions that a list of requests carries out, in order. -/
def history (m : Machine) : List Operation → List Instruction
  | [] => []
  | op :: rest => (m.executes op).toList ++ history (m.perform op).machine rest

/-- The next step carries out a return to a depth. -/
def ReturnsTo (m : Machine) (depth : Nat) : Prop :=
  m.executes .step = some .ret ∧ m.step.machine.stack.depth = depth

instance (m : Machine) (depth : Nat) : Decidable (m.ReturnsTo depth) :=
  inferInstanceAs (Decidable (_ ∧ _))

variable {m : Machine}

theorem executes_step_iff (hd : m.stack.depth ≤ stackFrames) {i : Instruction} :
    m.executes .step = some i ↔ m.verdict = .ok i := by
  cases hv : m.verdict with
  | error f => simp [executes, (step_of_verdict_error hd hv).1]
  | ok j =>
    obtain ⟨-, w, hw, hj, -⟩ := verdict_ok_iff.mp hv
    have hj : w.decode? = some j := Word.decode?_of_row (Word.decode_ok_iff.mp hj)
    simp [executes, (step_of_verdict_ok hd hv).1, hw, hj]

/-- What a request does to the machine, if it is no step or a step that fails. -/
theorem stack_perform_of_none (hd : m.stack.depth ≤ stackFrames) {op : Operation}
    (h : m.executes op = none) : (m.perform op).machine.stack = m.stack := by
  rcases perform_cases m op with rfl | ⟨_, _, _, _, hm⟩
  · cases hv : m.verdict with
    | error f => simp only [perform, (step_of_verdict_error hd hv).2]
    | ok i =>
      rw [(executes_step_iff hd).mpr hv] at h
      cases h
  · rw [hm]

/-- What a request does that carries an instruction out. -/
theorem perform_of_some (hd : m.stack.depth ≤ stackFrames) {op : Operation} {i : Instruction}
    (h : m.executes op = some i) :
    op = .step ∧ m.pc.toNat + 2 ≤ memorySize ∧ i.fault? m = none ∧
      (m.perform op).machine = m.after i := by
  cases op with
  | step =>
    have hv := (executes_step_iff hd).mp h
    obtain ⟨-, w, hw, -, hf⟩ := verdict_ok_iff.mp hv
    exact ⟨rfl, fetch_fits hw, hf, (step_of_verdict_ok hd hv).2⟩
  | _ => cases h

theorem live_perform (hd : m.stack.depth ≤ stackFrames) (op : Operation) :
    (m.perform op).machine.stack.live = match m.executes op with
      | some .ret => m.stack.live.dropLast
      | some (.call _) => m.stack.live ++ [m.pc + 2]
      | _ => m.stack.live := by
  cases h : m.executes op with
  | none => rw [stack_perform_of_none hd h]
  | some i =>
    obtain ⟨-, -, hf, hm⟩ := perform_of_some hd h
    rw [hm, live_after hd hf]
    cases i <;> rfl

/-- A return is to the latest live address, and there is one. -/
theorem pc_of_ret (hd : m.stack.depth ≤ stackFrames) (h : m.executes .step = some .ret) :
    ∃ rest, m.stack.live = rest ++ [m.step.machine.pc] := by
  obtain ⟨-, -, hf, hm⟩ := perform_of_some hd h
  have h0 := Instruction.fault?_ret_eq_none_iff.mp hf
  have hpc : m.step.machine.pc = m.stack.top := congrArg Machine.pc hm
  rw [hpc]
  exact ⟨_, CallStack.live_eq_append_top hd h0⟩

/-! ## Counting -/

theorem depth_perform (h : m.InRange) (op : Operation) :
    (m.perform op).machine.stack.depth + (m.executes op).toList.countP Instruction.isRet =
      m.stack.depth + (m.executes op).toList.countP Instruction.isCall := by
  have hd := h.depth_le
  have hlen := CallStack.length_live (inRange_perform h op).depth_le
  rw [live_perform hd] at hlen
  cases he : m.executes op with
  | none => rw [stack_perform_of_none hd he]; rfl
  | some i =>
    rw [← hlen, ← CallStack.length_live hd, he]
    cases i with
    | ret =>
      obtain ⟨rfl, -⟩ := perform_of_some hd he
      obtain ⟨rest, hr⟩ := pc_of_ret hd he
      simp [hr, Instruction.isRet, Instruction.isCall]
    | call address => simp [Instruction.isRet, Instruction.isCall]
    | _ => rfl

theorem depth_run (h : m.InRange) (ops : List Operation) :
    (m.run ops).stack.depth + (m.history ops).countP Instruction.isRet =
      m.stack.depth + (m.history ops).countP Instruction.isCall := by
  induction ops generalizing m with
  | nil => rfl
  | cons op rest ih =>
    have hstep := depth_perform h op
    have hrest := ih (inRange_perform h op)
    simp only [history, List.countP_append, run]
    omega

/-! ## Bracketing -/

/-- A live frame stays live, with the frames below it, while no return goes back below it. -/
theorem live_run (h : m.InRange) {below above : List UInt16} {address : UInt16}
    (hlive : m.stack.live = below ++ address :: above) (ops : List Operation)
    (hno : ∀ ops₁ ops₂, ops = ops₁ ++ .step :: ops₂ → ¬ (m.run ops₁).ReturnsTo below.length) :
    ∃ above', (m.run ops).stack.live = below ++ address :: above' := by
  induction ops generalizing m above with
  | nil => exact ⟨above, hlive⟩
  | cons op rest ih =>
    have hd := h.depth_le
    have hnext : ∃ above', (m.perform op).machine.stack.live = below ++ address :: above' := by
      rw [live_perform hd, hlive]
      cases he : m.executes op with
      | none => exact ⟨above, rfl⟩
      | some i =>
        cases i with
        | call target => exact ⟨above ++ [m.pc + 2], by simp⟩
        | ret =>
          obtain ⟨rfl, -⟩ := perform_of_some hd he
          cases above with
          | nil =>
            -- the frame itself would be the one taken off
            have hdepth := CallStack.length_live (inRange_perform h .step).depth_le
            rw [live_perform hd, hlive, he] at hdepth
            refine absurd ⟨he, ?_⟩ (hno [] rest rfl)
            change (m.perform .step).machine.stack.depth = below.length
            simpa using hdepth.symm
          | cons x xs =>
            refine ⟨(x :: xs).dropLast, ?_⟩
            simp only [List.dropLast_append_of_ne_nil (List.cons_ne_nil _ _)]
            rfl
        | _ => exact ⟨above, rfl⟩
    obtain ⟨above', h'⟩ := hnext
    refine ih (inRange_perform h op) h' fun ops₁ ops₂ heq => ?_
    exact hno (op :: ops₁) ops₂ (by rw [heq, List.cons_append])

/-- A return that takes off exactly the frame on top of `below` continues at its address. -/
theorem pc_of_returnsTo (h : m.InRange) {below above : List UInt16} {address : UInt16}
    (hlive : m.stack.live = below ++ address :: above) (hr : m.ReturnsTo below.length) :
    m.step.machine.pc = address := by
  obtain ⟨hret, hdepth⟩ := hr
  obtain ⟨rest, hrest⟩ := pc_of_ret h.depth_le hret
  have hlen : m.step.machine.stack.live.length = below.length := by
    rw [← hdepth]
    exact CallStack.length_live (inRange_step h).depth_le
  have hafter : m.step.machine.stack.live = rest := by
    have := live_perform h.depth_le .step
    rwa [hret, hrest, List.dropLast_concat] at this
  rw [hafter] at hlen
  have hsplit : rest ++ [m.step.machine.pc] = below ++ address :: above := hrest.symm.trans hlive
  have := List.append_inj_right hsplit hlen
  simp only [List.cons.injEq] at this
  exact this.1

/-- From a new machine on, the depth of the stack is the number of calls less the number of returns that
were carried out; and the first return that brings the depth back to what it was before a call
continues at the address after that call, whatever was done in between. -/
theorem calls_well_bracketed (dialect : Dialect) (random : RandomStream) (ops : List Operation) :
    let start := new dialect random
    (start.run ops).stack.depth + (start.history ops).countP Instruction.isRet =
        (start.history ops).countP Instruction.isCall ∧
      ∀ before mid address,
        let m := start.run before
        let inside := m.step.machine
        m.executes .step = some (.call address) →
        (∀ mid₁ mid₂, mid = mid₁ ++ .step :: mid₂ → ¬ (inside.run mid₁).ReturnsTo m.stack.depth) →
        (inside.run mid).ReturnsTo m.stack.depth →
        (inside.run mid).step.machine.pc.toNat = m.pc.toNat + 2 := by
  intro start
  have h0 : start.InRange := inRange_new dialect random
  have hcount := depth_run h0 ops
  rw [show start.stack.depth = 0 from rfl, Nat.zero_add] at hcount
  refine ⟨hcount, ?_⟩
  intro before mid address m inside hcall hno hret
  have hm : m.InRange := inRange_run h0 before
  have hinside : inside.InRange := inRange_step hm
  have hbase : m.stack.live.length = m.stack.depth := CallStack.length_live hm.depth_le
  have hlive : inside.stack.live = m.stack.live ++ (m.pc + 2) :: [] := by
    have := live_perform hm.depth_le .step
    rwa [hcall] at this
  rw [← hbase] at hno hret
  obtain ⟨above, habove⟩ := live_run hinside hlive mid hno
  rw [pc_of_returnsTo (inRange_run hinside mid) habove hret]
  have hfit : m.pc.toNat + 2 ≤ memorySize := (perform_of_some hm.depth_le hcall).2.1
  exact toNat_add_two (Nat.lt_of_le_of_lt hfit (by decide))

/-- Loads a program that calls a routine, which calls another one before it returns. -/
def loadNestedCalls : List Operation :=
  [.load [0x22, 0x04, 0x12, 0x02, 0x22, 0x08, 0x00, 0xEE, 0x00, 0xEE]]

/-- The first request after `loadNestedCalls` is the outer call; the inner one comes back between. -/
theorem calls_well_bracketed_nested :
    let m := (new .classic (.ofSeed 0)).run loadNestedCalls
    m.executes .step = some (.call 0x0204) ∧
      (∀ mid₁ mid₂, [Operation.step, .step] = mid₁ ++ .step :: mid₂ →
        ¬ (m.step.machine.run mid₁).ReturnsTo m.stack.depth) ∧
      (m.step.machine.run [.step, .step]).ReturnsTo m.stack.depth ∧
      (m.step.machine.run [.step, .step]).step.machine.pc.toNat = m.pc.toNat + 2 := by
  have hrun :
      let m := (new .classic (.ofSeed 0)).run loadNestedCalls
      m.executes .step = some (.call 0x0204) ∧
      ¬ (m.step.machine.run []).ReturnsTo m.stack.depth ∧
      ¬ (m.step.machine.run [.step]).ReturnsTo m.stack.depth ∧
      (m.step.machine.run [.step, .step]).ReturnsTo m.stack.depth := by
    decide +kernel
  have hback := (calls_well_bracketed .classic (.ofSeed 0) []).2 loadNestedCalls [.step, .step] 0x0204
  -- the closed machine must not be evaluated again
  generalize (new .classic (.ofSeed 0)).run loadNestedCalls = m at hrun hback ⊢
  obtain ⟨hcall, houter, hinner, hret⟩ := hrun
  have hno : ∀ mid₁ mid₂, [Operation.step, .step] = mid₁ ++ .step :: mid₂ →
      ¬ (m.step.machine.run mid₁).ReturnsTo m.stack.depth := by
    intro mid₁ mid₂ h
    rcases mid₁ with _ | ⟨a, _ | ⟨b, rest⟩⟩
    · exact houter
    · simp only [List.cons_append, List.cons.injEq] at h
      rw [← h.1]
      exact hinner
    · simp at h
  exact ⟨hcall, hno, hret, hback hcall hno hret⟩

end Machine

end Chip8
