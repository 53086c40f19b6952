import Chip8.Proofs.Digits
import Chip8.Proofs.Halting

/-!
# What the log says of a step

A step reports the instruction that it is about to carry out, and a fault with the machine as it is then. By that
time the instruction has been executed as far as it went, and the word is read from memory once more; so the report
is of the machine that was stepped only because a fault leaves it as it was.

* `events_step`: the events of a step, as a function of the machine before it (`Machine.account`).
* `Machine.Diagnosed`: the records of a step, line by line, next to its result.
* `errors_run`: over a run errors are reported as often as the machine halts, at most once.
* `step_diagnosed`: these together.
-/
namespace Chip8

/-- What is written of a reply: the level and the line of each event, in order. -/
def Reply.records (r : Reply) : List (Level × String) := r.events.map fun e => (e.level, e.message)

theorem Text.not_dash_mem_hexDigits (width n : Nat) : '-' ∉ hexDigits width n := by
  have hdigit : ∀ d < 16, '-' ≠ Nat.digitChar d := by decide
  intro h
  obtain ⟨d, hd, hdash⟩ := exists_of_mem_hexDigits h
  exact hdigit d hd hdash

/-- What is shown for a word that is not there is shown for no word. -/
theorem Text.hexWord_ne_dashes (w : UInt16) : hexWord w ≠ "----" := by
  intro h
  have hmem : '-' ∈ (hexWord w).toList := h ▸ (by decide)
  rw [hexWord, hex, String.toList_ofList] at hmem
  exact not_dash_mem_hexDigits _ _ hmem

namespace Machine

/-! ## Events -/

/-- How a fault is reported. -/
def failing (m : Machine) (f : Fault) : List Event :=
  [.halting m.pc m.fetch.toOption f, .state m.snapshot]

/-- The events of the next step. -/
def account (m : Machine) : List Event :=
  if m.halted then []
  else match m.fetch with
    | .error f => m.failing f
    | .ok w => match w.decode with
      | .error f => m.failing f
      | .ok i => .executing m.pc w i :: match i.fault? m with
        | some f => m.failing f
        | none => remarks m.pc i

variable {m : Machine}

theorem events_step (hd : m.stack.depth ≤ stackFrames) : m.step.events = m.account := by
  unfold step account
  cases m.halted with
  | true => rfl
  | false =>
    cases hw : m.fetch with
    | error f => rfl
    | ok w =>
      simp only [Bool.false_eq_true, if_false]
      cases w.decode with
      | error f => rfl
      | ok i =>
        have hx := Instruction.execute_eq (fetch_fits hw) i fun _ => hd
        simp only [dispatch, hx]
        cases i.fault? m <;> rfl

/-! ## Records -/

/-- The line about the instruction that is carried out next. -/
def traceLine (m : Machine) (w : Word) (i : Instruction) : Level × String :=
  (.trace, Text.hexWord m.pc ++ ": " ++ Text.hexWord w ++ "  " ++ i.assembly)

/-- The line about a fault at the word that is shown. -/
def faultLine (m : Machine) (shown : String) (f : Fault) : Level × String :=
  (.error, "halting at " ++ Text.hexWord m.pc ++ " (word " ++ shown ++ "): " ++ f.message)

/-- The line that shows the machine, before it halts. -/
def stateLine (m : Machine) : Level × String := (.debug, { m.snapshot with halted := false }.text)

/-- The line about a routine of the host that is passed over, for every other instruction none. -/
def hostLines (m : Machine) : Instruction → List (Level × String)
  | .sys address =>
    [(.warning, "ignoring SYS " ++ Text.hex 3 address.toNat ++ " at " ++ Text.hexWord m.pc)]
  | _ => []

/-- The result of a step of `m` and the records that go with it. -/
inductive Diagnosed (m : Machine) : Except Stop Unit → List (Level × String) → Prop
  | refused (hh : m.halted = true) : Diagnosed m (.error (.fault (.halted m.pc))) []
  /-- There is no word at the program counter. -/
  | unfetched {f : Fault} (hh : m.halted = false) (hpc : 4096 < m.pc.toNat + 2) :
    Diagnosed m (.error (.fault f)) [m.faultLine "----" f, m.stateLine]
  | undecoded {w : Word} {f : Fault} (hh : m.halted = false) (hw : m.Holds w) (hu : w.Unknown) :
    Diagnosed m (.error (.fault f)) [m.faultLine (Text.hexWord w) f, m.stateLine]
  | failed {w : Word} {i : Instruction} {f : Fault} (hh : m.halted = false) (hw : m.Holds w) (hi : i.Row w) :
    Diagnosed m (.error (.fault f)) [m.traceLine w i, m.faultLine (Text.hexWord w) f, m.stateLine]
  | carriedOut {w : Word} {i : Instruction} (hh : m.halted = false) (hw : m.Holds w) (hi : i.Row w) :
    Diagnosed m (.ok ()) (m.traceLine w i :: m.hostLines i)

theorem records_failing (hh : m.halted = false) (f : Fault) :
    (m.failing f).map (fun e => (e.level, e.message)) =
      [m.faultLine ((m.fetch.toOption.map Text.hexWord).getD "----") f, m.stateLine] := by
  have hsnapshot : m.snapshot = { m.snapshot with halted := false } := by rw [← hh]; rfl
  rw [stateLine, ← hsnapshot]
  rfl

theorem diagnosed_step (hd : m.stack.depth ≤ stackFrames) : m.Diagnosed m.step.result m.step.records := by
  rw [Reply.records, events_step hd]
  cases hv : m.verdict with
  | ok i =>
    obtain ⟨hh, w, hw, hi, hf⟩ := verdict_ok_iff.mp hv
    have haccount : m.account = .executing m.pc w i :: remarks m.pc i := by
      simp only [account, hh, hw, hi, hf, Bool.false_eq_true, if_false]
    have hhost : (remarks m.pc i).map (fun e => (e.level, e.message)) = m.hostLines i := by
      cases i <;> rfl
    rw [haccount, List.map_cons, hhost, (step_of_verdict_ok hd hv).1]
    exact .carriedOut hh (fetch_ok_iff.mp hw) (Word.decode_ok_iff.mp hi)
  | error f =>
    rw [(step_of_verdict_error hd hv).1]
    rcases verdict_error_iff.mp hv with ⟨hh, rfl⟩ | ⟨hh, hw | ⟨w, hw, hi | ⟨i, hi, hf⟩⟩⟩
    · simp only [account, hh, if_true, List.map_nil]
      exact .refused hh
    · simp only [account, hh, hw, Bool.false_eq_true, if_false, records_failing hh]
      exact .unfetched hh (fetch_error_iff.mp hw).1
    · simp only [account, hh, hw, hi, Bool.false_eq_true, if_false, records_failing hh]
      exact .undecoded hh (fetch_ok_iff.mp hw) (Word.decode_error_iff.mp hi).1
    · simp only [account, hh, hw, hi, hf, Bool.false_eq_true, if_false, List.map_cons, records_failing hh]
      exact .failed hh (fetch_ok_iff.mp hw) (Word.decode_ok_iff.mp hi)

/-! ## Runs -/

/-- The records of a list of requests, in order. -/
def records (m : Machine) (ops : List Operation) : List (Level × String) :=
  (m.replies ops).flatMap Reply.records

/-- Whether a record is about an error. -/
def isError (r : Level × String) : Bool := r.1 == .error

theorem records_cons (m : Machine) (op : Operation) (rest : List Operation) :
    m.records (op :: rest) = (m.perform op).records ++ (m.perform op).machine.records rest := rfl

/-- A running machine that fails has its error reported once, and no other step reports one. -/
theorem errors_step (hd : m.stack.depth ≤ stackFrames) :
    m.step.records.countP isError + m.halted.toNat = m.step.machine.halted.toNat := by
  have hdiagnosed := diagnosed_step hd
  cases hh : m.halted with
  | true =>
    rw [step_of_halted hh, hh]
    rfl
  | false =>
    rcases step_of_running hd hh with ⟨hresult, hrunning⟩ | ⟨f, hresult, -, hm⟩
    · rw [hresult] at hdiagnosed
      rw [hrunning]
      generalize m.step.records = records at hdiagnosed ⊢
      cases hdiagnosed with
      | @carriedOut w i =>
        cases i <;> rfl
    · rw [hresult] at hdiagnosed
      rw [hm]
      generalize m.step.records = records at hdiagnosed ⊢
      cases hdiagnosed with
      | refused hhalted => rw [hh] at hhalted; cases hhalted
      | _ => rfl

theorem errors_perform (hd : m.stack.depth ≤ stackFrames) (op : Operation) :
    (m.perform op).records.countP isError + m.halted.toNat = (m.perform op).machine.halted.toNat := by
  cases op with
  | load image =>
    simp only [perform, load]
    split <;> simp [Reply.records, Event.level, isError]
  | step => exact errors_step hd
  | tick ticks => exact Nat.zero_add _
  | setKey key pressed =>
    simp only [perform, setKey]
    split <;> exact Nat.zero_add _

/-- Over a run errors are reported as often as the machine halts. -/
theorem errors_run (hd : m.stack.depth ≤ stackFrames) (ops : List Operation) :
    (m.records ops).countP isError + m.halted.toNat = (m.run ops).halted.toNat := by
  induction ops generalizing m with
  | nil => exact Nat.zero_add _
  | cons op rest ih =>
    have hop := errors_perform hd op
    have hrest := ih (depth_le_perform hd op)
    rw [records_cons, List.countP_append, run]
    omega

/-- The records of a step are the ones that its result asks for, about the machine as it was before the step; dashes
are shown for no word that there is. A run reports at most one error. -/
theorem step_diagnosed (m : Machine) (hd : m.stack.depth ≤ 16) :
    m.Diagnosed m.step.result m.step.records ∧ (∀ w, Text.hexWord w ≠ "----") ∧
      ∀ ops, (m.records ops).countP isError ≤ 1 := by
  refine ⟨diagnosed_step hd, Text.hexWord_ne_dashes, fun ops => ?_⟩
  have herrors := errors_run hd ops
  have hhalted := (m.run ops).halted.toNat_le
  omega

/-- A machine about to call the host and then to return from no call. -/
def hostCaller : Machine :=
  { new .classic (.ofSeed 0) with memory := Memory.blank.overlay imageStart [0x01, 0x23, 0x00, 0xEE] }

theorem step_diagnosed_host :
    let second := hostCaller.step.machine
    (hostCaller.stack.depth ≤ 16 ∧ second.stack.depth ≤ 16) ∧
      hostCaller.Diagnosed hostCaller.step.result hostCaller.step.records ∧
      hostCaller.step.records = [(.trace, "0200: 0123  SYS 0x123"), (.warning, "ignoring SYS 123 at 0200")] ∧
      second.Diagnosed second.step.result second.step.records ∧
      second.step.records = [(.trace, "0202: 00ee  RET"),
        (.error, "halting at 0202 (word 00ee): return with empty call stack"),
        (.debug, "Chip8 \x7b gpr: RegFile \x7b V0: 00, V1: 00, V2: 00, V3: 00, V4: 00, V5: 00, V6: 00, V7: 00, " ++
          "V8: 00, V9: 00, VA: 00, VB: 00, VC: 00, VD: 00, VE: 00, VF: 00 \x7d, pc: 0202, i: 0000, dt: 00, st: 00, " ++
          "stack: Stack \x7b sp: 0, frames: [] \x7d, halted: false \x7d")] ∧
      (hostCaller.records [.step, .step, .load [], .step]).countP isError ≤ 1 := by
  intro second
  have hd : hostCaller.stack.depth ≤ 16 ∧ second.stack.depth ≤ 16 := by decide +kernel
  obtain ⟨hfirst, -, herrors⟩ := step_diagnosed hostCaller hd.1
  refine ⟨hd, hfirst, ?_, (step_diagnosed second hd.2).1, ?_, herrors _⟩
  · decide +kernel
  · decide +kernel

end Machine
end Chip8
