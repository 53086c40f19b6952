import Chip8.Proofs.Guarded
import Chip8.Proofs.Opcodes

/-!
# Reachable machines stay in range

`Machine.InRange` bounds the program counter, the depth of the call stack and the live return
addresses together: a return continues at a live frame, a call pushes the address after a word that
was fetched, and a fetch needs the whole word inside memory. None of the three bounds is preserved
without the others.

* `inRange_after`: carrying out an instruction that was fetched and decoded keeps it.
* `inRange_perform`, `inRange_run`: so does every request, and every list of requests.
* `step_ne_crash`: from a machine in range no step is a crash.
* `run_never_out_of_bounds`: all of this from a new machine on, also with every access checked.
-/
namespace Chip8

namespace Machine

/-- Program counter, depth and live return addresses are where a program can bring them. -/
structure InRange (m : Machine) : Prop where
  pc_le : m.pc.toNat ≤ 0x1002
  depth_le : m.stack.depth ≤ stackFrames
  live_mem : ∀ a ∈ m.stack.live, 0x0002 ≤ a.toNat ∧ a.toNat ≤ 0x1000

variable {m : Machine}

theorem inRange_new (dialect : Dialect) (random : RandomStream) : (new dialect random).InRange where
  pc_le := show (UInt16.ofNat imageStart).toNat ≤ 0x1002 by decide
  depth_le := Nat.zero_le _
  live_mem a ha := by cases ha

/-- An instruction that was fetched continues at most two past the end of memory. -/
theorem target_le {i : Instruction} {w : Word} (h : m.InRange) (hpc : m.pc.toNat + 2 ≤ memorySize)
    (hi : i.Row w) (hf : i.fault? m = none) : (i.target m).toNat ≤ 0x1002 := by
  have hsize : memorySize = 4096 := rfl
  have h2 : (m.pc + 2).toNat = m.pc.toNat + 2 := toNat_add_two (by omega)
  have h4 : (m.pc + 2 + 2).toNat = m.pc.toNat + 4 := by rw [toNat_add_two (by omega), h2]
  have hn : w.nnn.toNat < 4096 := by rw [w.toNat_nnn]; omega
  have hnext : ∀ c : Bool, (if c then m.pc + 2 + 2 else m.pc + 2).toNat ≤ 0x1002 := by
    intro c
    cases c <;> simp only [if_true, Bool.false_eq_true, if_false] <;> omega
  cases i with
  | ret =>
    have h0 := Instruction.fault?_ret_eq_none_iff.mp hf
    have := (h.live_mem _ (CallStack.top_mem_live h.depth_le h0)).2
    simp only [Instruction.target]
    omega
  | jump address => rw [Instruction.target, hi.2]; omega
  | call address => rw [Instruction.target, hi.2]; omega
  | jumpOffset address =>
    have hlt : address.toNat + (m.registers.get .offset).toNat < memorySize := by
      simpa [Instruction.fault?] using hf
    rw [Instruction.target, UInt16.toNat_ofNat']
    omega
  | awaitKey x =>
    simp only [Instruction.target]
    split <;> omega
  | _ => exact hnext _

theorem inRange_after {i : Instruction} {w : Word} (h : m.InRange) (hpc : m.pc.toNat + 2 ≤ memorySize)
    (hi : i.Row w) (hf : i.fault? m = none) : (m.after i).InRange where
  pc_le := target_le h hpc hi hf
  depth_le := depth_after_le h.depth_le hf
  live_mem := by
    have hsize : memorySize = 4096 := rfl
    rw [live_after h.depth_le hf]
    cases i with
    | ret => exact fun a ha => h.live_mem a ((List.dropLast_sublist _).mem ha)
    | call address =>
      intro a ha
      rcases List.mem_append.mp ha with ha | ha
      · exact h.live_mem a ha
      · rw [List.mem_singleton.mp ha, toNat_add_two (by omega)]
        omega
    | _ => exact h.live_mem

theorem inRange_step (h : m.InRange) : m.step.machine.InRange := by
  cases hv : m.verdict with
  | error f =>
    rw [(step_of_verdict_error h.depth_le hv).2]
    exact ⟨h.pc_le, h.depth_le, h.live_mem⟩
  | ok i =>
    obtain ⟨-, w, hw, hi, hf⟩ := verdict_ok_iff.mp hv
    rw [(step_of_verdict_ok h.depth_le hv).2]
    exact inRange_after h (fetch_fits hw) (Word.decode_ok_iff.mp hi) hf

theorem inRange_perform (h : m.InRange) (op : Operation) : (m.perform op).machine.InRange := by
  rcases perform_cases m op with rfl | ⟨_, _, _, _, hm⟩
  · exact inRange_step h
  · rw [hm]
    exact ⟨h.pc_le, h.depth_le, h.live_mem⟩

theorem inRange_run (h : m.InRange) (ops : List Operation) : (m.run ops).InRange :=
  run_induction (fun op _ _ h => inRange_perform h op) h

theorem step_ne_crash (hd : m.stack.depth ≤ stackFrames) (c : Crash) :
    m.step.result ≠ .error (.crash c) := by
  cases hv : m.verdict with
  | error f => rw [(step_of_verdict_error hd hv).1]; simp
  | ok i => rw [(step_of_verdict_ok hd hv).1]; simp

/-- Whatever is asked of a new machine, its program counter, stack depth and live return addresses stay
in range, and the next step, with every 16-bit sum and every access to registers, frames, pixels and
memory cells checked, is the step and no crash. -/
theorem run_never_out_of_bounds (dialect : Dialect) (random : RandomStream) (ops : List Operation) :
    let m := (new dialect random).run ops
    m.pc.toNat ≤ 0x1002 ∧ m.stack.depth ≤ 16 ∧
      (∀ a ∈ m.stack.live, 0x0002 ≤ a.toNat ∧ a.toNat ≤ 0x1000) ∧
      Guarded.step m = m.step ∧ ∀ c, (Guarded.step m).result ≠ .error (.crash c) := by
  intro m
  have h : m.InRange := inRange_run (inRange_new dialect random) ops
  refine ⟨h.pc_le, h.depth_le, h.live_mem, Guarded.step_eq m, fun c => ?_⟩
  rw [Guarded.step_eq]
  exact step_ne_crash h.depth_le c

/-- After a call the one live address is in range. -/
theorem run_never_out_of_bounds_in_call :
    0x0202 ∈ ((new .classic (.ofSeed 0)).run [.load [0x22, 0x00], .step]).stack.live ∧
      0x0002 ≤ (0x0202 : UInt16).toNat ∧ (0x0202 : UInt16).toNat ≤ 0x1000 := by
  have hlive : 0x0202 ∈ ((new .classic (.ofSeed 0)).run [.load [0x22, 0x00], .step]).stack.live := by
    decide +kernel
  exact ⟨hlive, (run_never_out_of_bounds .classic (.ofSeed 0) _).2.2.1 _ hlive⟩

end Machine

end Chip8
