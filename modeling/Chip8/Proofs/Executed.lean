import Chip8.Proofs.Faults

/-!
# The words that a run carries out

`Machine.carried` is the word that a request carries out: the word at the program counter, if the request
is a step and the step succeeds. `Machine.executed` lists these words over a run, each with the machine
that it was fetched on.

* `step_cases`: what a step can be, a fault that halts or the instruction of a word carried out. What
  follows about steps is a case analysis over it.
* `depth_le_perform`, `depth_le_run`: no request brings the depth of the call stack past its frames.
-/
namespace Chip8.Machine

/-- The word that a request carries out, if it does. -/
def carried (m : Machine) : Operation → Option Word
  | .step => match m.step.result with
    | .ok _ => m.fetch.toOption
    | .error _ => none
  | _ => none

/-- The words that a list of requests carries out, in order, each with the machine it was fetched on. -/
def executed (m : Machine) : List Operation → List (Machine × Word)
  | [] => []
  | op :: rest => ((m.carried op).map fun w => (m, w)).toList ++ executed (m.perform op).machine rest

variable {m : Machine}

theorem carried_step_iff {w : Word} :
    m.carried .step = some w ↔ m.step.result = .ok () ∧ m.Holds w := by
  rw [← fetch_ok_iff]
  unfold carried
  cases m.step.result with
  | ok _ => cases m.fetch <;> simp [Except.toOption]
  | error e => simp

/-- A step reports a fault, halts and carries nothing out; or it carries out the word at the program
counter, as the instruction of that word. -/
theorem step_cases (hd : m.stack.depth ≤ stackFrames) :
    (∃ f, m.verdict = .error f ∧ m.carried .step = none ∧ m.step.result = .error (.fault f) ∧
      m.step.machine = { m with halted := true }) ∨
    (∃ w i, m.verdict = .ok i ∧ m.carried .step = some w ∧ i.Row w ∧ i.fault? m = none ∧
      m.step.result = .ok () ∧ m.step.machine = m.after i) := by
  cases hv : m.verdict with
  | error f =>
    obtain ⟨hresult, hmachine⟩ := step_of_verdict_error hd hv
    exact .inl ⟨f, rfl, by simp [carried, hresult], hresult, hmachine⟩
  | ok i =>
    obtain ⟨hresult, hmachine⟩ := step_of_verdict_ok hd hv
    obtain ⟨-, w, hw, hi, hf⟩ := verdict_ok_iff.mp hv
    have hcarried : m.carried .step = some w := carried_step_iff.mpr ⟨hresult, fetch_ok_iff.mp hw⟩
    exact .inr ⟨w, i, rfl, hcarried, Word.decode_ok_iff.mp hi, hf, hresult, hmachine⟩

theorem forall_executed_cons {P : Machine × Word → Prop} {op : Operation} {rest : List Operation} :
    (∀ e ∈ m.executed (op :: rest), P e) ↔
      (∀ w, m.carried op = some w → P (m, w)) ∧ ∀ e ∈ (m.perform op).machine.executed rest, P e := by
  rw [executed, List.forall_mem_append]
  cases m.carried op <;> simp

theorem executed_append (m : Machine) (ops ops' : List Operation) :
    m.executed (ops ++ ops') = m.executed ops ++ (m.run ops).executed ops' := by
  induction ops generalizing m with
  | nil => rfl
  | cons op rest ih => simp only [List.cons_append, executed, run, ih, List.append_assoc]

theorem depth_le_perform (hd : m.stack.depth ≤ stackFrames) (op : Operation) :
    (m.perform op).machine.stack.depth ≤ stackFrames := by
  rcases perform_cases m op with rfl | ⟨_, _, _, _, hm⟩
  · rcases step_cases hd with ⟨f, -, -, -, hm⟩ | ⟨w, i, -, -, -, hf, -, hm⟩
    · simp only [perform, hm]
      exact hd
    · simp only [perform, hm]
      exact depth_after_le hd hf
  · rw [hm]
    exact hd

theorem depth_le_run (hd : m.stack.depth ≤ stackFrames) (ops : List Operation) :
    (m.run ops).stack.depth ≤ stackFrames :=
  run_induction (P := fun m => m.stack.depth ≤ stackFrames) (fun op _ _ h => depth_le_perform h op) hd

end Chip8.Machine
