import Chip8.Machine.Step
import Chip8.Proofs.Frames

/-!
# What one step does

`Instruction.execute` is a sequence of small actions, any of which may stop half-way. Here the same
is said as three functions of the machine it starts on: the fault an instruction meets
(`Instruction.fault?`), the address to continue at (`Instruction.target`) and the machine it leaves,
up to the program counter (`Instruction.change`).

* `execute_eq`: executing is these three, for every instruction. An instruction that meets a fault
  leaves the machine exactly as it was.
* `step_of_no_fault`, `step_of_fault`: a step of a running machine at an instruction.
* `Machine.verdict`: the instruction a step carries out, or the fault it reports.
* `step_of_verdict_ok`, `step_of_verdict_error`, `result_step`: result and machine of a step, from the verdict.
* `perform_cases`: a request that is no step leaves most of the machine.
* `run_induction`: what every request keeps is kept by a run.

Later modules cite these and never open `execute` or `step`.
-/
namespace Chip8

/-- The fault of a range of cells that is not inside memory. -/
def rangeFault? (address length : Nat) : Option Fault :=
  if address + length ≤ memorySize then none else some (.addressOutOfRange (max address memorySize))

namespace Memory

/-- The bytes from `address` on, as far as memory goes. -/
def bytes (m : Memory) (address length : Nat) : List UInt8 :=
  (m.cells.toList.drop address).take length

theorem slice_eq (m : Memory) (address length : Nat) :
    m.slice address length = match rangeFault? address length with
      | none => .ok (m.bytes address length)
      | some f => .error f := by
  have hcut : (m.cells.toArray.extract address (address + length)).toList = m.bytes address length := by
    rw [Array.toList_extract, List.extract_eq_take_drop, Nat.add_sub_cancel_left]
    rfl
  unfold slice checkRange rangeFault?
  rw [hcut]
  by_cases h : address + length ≤ memorySize <;> simp only [h] <;> rfl

end Memory

/-- The index after `count` bytes were stored or loaded. -/
def Machine.movedIndex (m : Machine) (count : Nat) : UInt16 :=
  if m.dialect.advancesIndex then m.index + UInt16.ofNat count else m.index

theorem toNat_add_two {a : UInt16} (h : a.toNat + 2 < 65536) : (a + 2).toNat = a.toNat + 2 := by
  have h2 : (2 : UInt16).toNat = 2 := rfl
  rw [UInt16.toNat_add, h2]
  omega

namespace Keypad

theorem isDown_eq (k : Keypad) (key : Nat) :
    k.isDown key =
      if key < keyCount then .ok (k.keys.toList.getD key false) else .error (.invalidKey key) := by
  unfold isDown
  split
  · rename_i h
    simp [List.getD_eq_getElem?_getD, h]
  · rfl

end Keypad

theorem Registers.length_upTo (r : Registers) (x : Register) : (r.upTo x).length = x.val + 1 := by
  have := x.isLt
  rw [upTo, List.length_take, Vector.length_toList]
  omega

/-! ## The actions on a machine -/

section

variable {ε σ α β : Type}

theorem bind_apply (x : EStateM ε σ α) (f : α → EStateM ε σ β) (s : σ) :
    (x >>= f) s = match x s with
      | .ok a s' => f a s'
      | .error e s' => .error e s' := EStateM.run_bind x f

theorem get_apply (s : σ) : (get : EStateM ε σ σ) s = .ok s s := rfl

theorem modify_apply (f : σ → σ) (s : σ) : (modify f : EStateM ε σ Unit) s = .ok () (f s) := rfl

end

namespace Action

variable {α : Type} (m : Machine)

theorem reg_apply (x : Register) : reg x m = .ok (m.registers.get x) m := rfl

theorem attempt_ok (a : α) : attempt (.ok a) m = .ok a m := rfl

theorem afterWord_apply {address : UInt16} (h : address.toNat + 2 < 65536) :
    afterWord address m = .ok (address + 2) m := by
  unfold afterWord
  rw [if_pos h]
  rfl

theorem skipIf_apply {next : UInt16} (h : next.toNat + 2 < 65536) (condition : Bool) :
    skipIf condition next m = .ok (if condition then next + 2 else next) m := by
  unfold skipIf
  cases condition
  · rfl
  · exact afterWord_apply m h

theorem loadIndexed_apply (count : Nat) :
    loadIndexed count m = match rangeFault? m.index.toNat count with
      | none => .ok (m.memory.bytes m.index.toNat count) m
      | some f => .error (.fault f) m := by
  unfold loadIndexed
  rw [bind_apply, get_apply]
  simp only [Memory.slice_eq]
  cases rangeFault? m.index.toNat count <;> rfl

theorem storeIndexed_apply (bytes : List UInt8) :
    storeIndexed bytes m = match rangeFault? m.index.toNat bytes.length with
      | none => .ok () { m with memory := m.memory.overlay m.index.toNat bytes }
      | some f => .error (.fault f) m := by
  unfold storeIndexed rangeFault?
  rw [bind_apply, get_apply]
  by_cases h : m.index.toNat + bytes.length ≤ memorySize <;>
    simp only [Memory.checkRange, bind_apply, h] <;> rfl

theorem moveIndex_apply (count : Nat) :
    moveIndex count m = .ok () { m with index := m.movedIndex count } := by
  unfold moveIndex Machine.movedIndex
  rw [modify_apply]
  by_cases h : m.dialect.advancesIndex = true <;> simp only [h] <;> rfl

end Action

/-! ## Execution as three functions -/

namespace Instruction

/-- The fault that an instruction meets on a machine. -/
def fault? (m : Machine) : Instruction → Option Fault
  | ret => if m.stack.depth = 0 then some .stackUnderflow else none
  | call _ => if m.stack.depth = stackFrames then some .stackOverflow else none
  | jumpOffset address =>
    let target := address.toNat + (m.registers.get .offset).toNat
    if target < memorySize then none else some (.addressOutOfRange target)
  | draw _ _ rows => rangeFault? m.index.toNat rows.toNat
  | skipKey x _ =>
    if (m.registers.get x).toNat < keyCount then none else some (.invalidKey (m.registers.get x).toNat)
  | storeDecimal _ => rangeFault? m.index.toNat 3
  | storeRegisters x => rangeFault? m.index.toNat (x.val + 1)
  | loadRegisters x => rangeFault? m.index.toNat (x.val + 1)
  | _ => none

/-- Whether an instruction skips the one after it. -/
def skips (m : Machine) : Instruction → Bool
  | skipConst x value negated => (m.registers.get x == value) != negated
  | skipSame x y negated => (m.registers.get x == m.registers.get y) != negated
  | skipKey x negated => (m.keypad.keys.toList.getD (m.registers.get x).toNat false) != negated
  | _ => false

/-- The address to continue at. -/
def target (m : Machine) : Instruction → UInt16
  | ret => m.stack.top
  | jump address => address
  | call address => address
  | jumpOffset address => UInt16.ofNat (address.toNat + (m.registers.get .offset).toNat)
  | awaitKey _ => if m.keypad.lowestDown.isSome then m.pc + 2 else m.pc
  | i => if i.skips m then m.pc + 2 + 2 else m.pc + 2

/-- The machine that an instruction leaves, with the program counter still at the instruction. -/
def change (m : Machine) : Instruction → Machine
  | clearScreen => { m with screen := .blank }
  | ret => { m with stack := m.stack.shrink }
  | call _ => { m with stack := m.stack.grow (m.pc + 2) }
  | put x value => { m with registers := m.registers.set x value }
  | addConst x value => { m with registers := m.registers.set x (m.registers.get x + value) }
  | alu op x y => { m with registers := m.registers.applyAlu m.dialect op x y }
  | setIndex address => { m with index := address }
  | random x mask =>
    { m with random := m.random.advance, registers := m.registers.set x (m.random.next &&& mask) }
  | draw x y rows =>
    let drawn := m.screen.draw (m.registers.get x).toNat (m.registers.get y).toNat
      (m.memory.bytes m.index.toNat rows.toNat)
    { m with screen := drawn.1, registers := m.registers.set .flag (if drawn.2 then 1 else 0) }
  | readDelay x => { m with registers := m.registers.set x m.delay.left }
  | awaitKey x => match m.keypad.lowestDown with
    | some key => { m with registers := m.registers.set x (UInt8.ofNat key) }
    | none => m
  | setDelay x => { m with delay := ⟨m.registers.get x⟩ }
  | setSound x => { m with sound := ⟨m.registers.get x⟩ }
  | addIndex x => { m with index := m.index + (m.registers.get x).toUInt16 }
  | pointGlyph x =>
    { m with index := UInt16.ofNat (glyphStart + (m.registers.get x).toNat % 16 * glyphSize) }
  | storeDecimal x =>
    { m with memory := m.memory.overlay m.index.toNat (decimalDigits (m.registers.get x)) }
  | storeRegisters x =>
    { m with memory := m.memory.overlay m.index.toNat (m.registers.upTo x),
             index := m.movedIndex (x.val + 1) }
  | loadRegisters x =>
    { m with registers := m.registers.overlay 0 (m.memory.bytes m.index.toNat (x.val + 1)),
             index := m.movedIndex (x.val + 1) }
  | _ => m

/-- The instructions that look at the call stack. -/
def UsesStack : Instruction → Prop
  | ret => True
  | call _ => True
  | _ => False

theorem change_awaitKey (m : Machine) (x : Register) :
    (awaitKey x).change m = { m with registers :=
      match m.keypad.lowestDown with
      | some key => m.registers.set x (UInt8.ofNat key)
      | none => m.registers } := by
  unfold change
  cases m.keypad.lowestDown <;> rfl

theorem fault?_ret_eq_none_iff {m : Machine} : ret.fault? m = none ↔ m.stack.depth ≠ 0 := by
  simp [fault?]

theorem fault?_call_eq_none_iff {m : Machine} {address : UInt16} :
    (call address).fault? m = none ↔ m.stack.depth ≠ stackFrames := by
  simp [fault?]

open Chip8.Action

variable {m : Machine}

/-- `effect` is `fault?`, `target` and `change` where both words after the instruction have an
address. Only an instruction that looks at the call stack needs it to be one that can be reached. -/
theorem effect_eq (hpc : m.pc.toNat + 2 ≤ memorySize) (i : Instruction)
    (hd : i.UsesStack → m.stack.depth ≤ stackFrames) :
    i.effect m.pc (m.pc + 2) m = match i.fault? m with
      | some f => .error (.fault f) m
      | none => .ok (i.target m) (i.change m) := by
  have hnext : (m.pc + 2).toNat + 2 < 65536 := by
    have : memorySize = 4096 := rfl
    rw [toNat_add_two (by omega)]
    omega
  -- an instruction that checks nothing and never branches is `target` and `change` as it stands
  cases i with
  | clearScreen => rfl
  | ret =>
    simp only [effect, bind_apply, get_apply, CallStack.pop_eq _ (hd trivial), fault?]
    by_cases h0 : m.stack.depth = 0 <;> simp only [h0] <;> rfl
  | sys address => rfl
  | jump address => rfl
  | call address =>
    simp only [effect, bind_apply, get_apply, CallStack.push_eq _ _ (hd trivial), fault?]
    by_cases h : m.stack.depth = stackFrames <;> simp only [h] <;> rfl
  | skipConst x value negated =>
    simp only [effect, bind_apply, reg_apply, skipIf_apply _ hnext]
    rfl
  | skipSame x y negated =>
    simp only [effect, bind_apply, reg_apply, skipIf_apply _ hnext]
    rfl
  | put x value => rfl
  | addConst x value => rfl
  | alu op x y => rfl
  | setIndex address => rfl
  | jumpOffset address =>
    simp only [effect, bind_apply, reg_apply, fault?]
    by_cases h : address.toNat + (m.registers.get .offset).toNat < memorySize <;>
      simp only [h] <;> rfl
  | random x mask => rfl
  | draw x y rows =>
    simp only [effect, bind_apply, reg_apply, loadIndexed_apply, fault?]
    cases rangeFault? m.index.toNat rows.toNat <;> rfl
  | skipKey x negated =>
    simp only [effect, bind_apply, reg_apply, get_apply, Keypad.isDown_eq, fault?]
    by_cases h : (m.registers.get x).toNat < keyCount
    · simp only [h, if_true, attempt_ok, skipIf_apply _ hnext]
      rfl
    · simp only [h]
      rfl
  | readDelay x => rfl
  | awaitKey x =>
    simp only [effect, bind_apply, get_apply, fault?, target, change]
    cases m.keypad.lowestDown <;> rfl
  | setDelay x => rfl
  | setSound x => rfl
  | addIndex x => rfl
  | pointGlyph x => rfl
  | storeDecimal x =>
    simp only [effect, bind_apply, reg_apply, storeIndexed_apply, fault?]
    have hlen : (decimalDigits (m.registers.get x)).length = 3 := rfl
    rw [hlen]
    cases rangeFault? m.index.toNat 3 <;> rfl
  | storeRegisters x =>
    simp only [effect, bind_apply, get_apply, storeIndexed_apply, fault?]
    rw [Registers.length_upTo]
    cases rangeFault? m.index.toNat (x.val + 1) with
    | none => simp only [moveIndex_apply]; rfl
    | some f => rfl
  | loadRegisters x =>
    simp only [effect, bind_apply, loadIndexed_apply, fault?]
    cases rangeFault? m.index.toNat (x.val + 1) with
    | none => simp only [modify_apply, moveIndex_apply]; rfl
    | some f => rfl

/-- Executing an instruction that was fetched: a fault with nothing changed, or target and change. -/
theorem execute_eq (hpc : m.pc.toNat + 2 ≤ memorySize) (i : Instruction)
    (hd : i.UsesStack → m.stack.depth ≤ stackFrames) :
    i.execute m = match i.fault? m with
      | some f => .error (.fault f) m
      | none => .ok (i.target m) (i.change m) := by
  have hfit : m.pc.toNat + 2 < 65536 := Nat.lt_of_le_of_lt hpc (by decide)
  simp only [execute, bind_apply, get_apply, afterWord_apply m hfit]
  exact effect_eq hpc i hd

end Instruction

/-! ## One step -/

namespace Machine

variable {m : Machine}

/-- The instruction that the next step carries out, or the fault that it reports. -/
def verdict (m : Machine) : Except Fault Instruction :=
  if m.halted then .error (.halted m.pc)
  else match m.fetch with
    | .error f => .error f
    | .ok w => match w.decode with
      | .error f => .error f
      | .ok i => match i.fault? m with
        | some f => .error f
        | none => .ok i

/-- The machine that carrying out an instruction leaves. -/
def after (m : Machine) (i : Instruction) : Machine := { i.change m with pc := i.target m }

theorem fetch_fits {w : Word} (h : m.fetch = .ok w) : m.pc.toNat + 2 ≤ memorySize := by
  unfold fetch Memory.word at h
  split at h
  · assumption
  · cases h

theorem verdict_ok_iff {i : Instruction} :
    m.verdict = .ok i ↔
      m.halted = false ∧ ∃ w, m.fetch = .ok w ∧ w.decode = .ok i ∧ i.fault? m = none := by
  unfold verdict
  cases m.halted with
  | true => simp
  | false =>
    cases m.fetch with
    | error f => simp
    | ok w =>
      cases hi : w.decode with
      | error f => simp [hi]
      | ok j =>
        have key : (∃ v, Except.ok (ε := Fault) w = .ok v ∧ v.decode = .ok i ∧
            i.fault? m = none) ↔ j = i ∧ j.fault? m = none := by
          simp only [Except.ok.injEq, exists_eq_left', hi]
          exact ⟨fun ⟨e, h⟩ => ⟨e, e ▸ h⟩, fun ⟨e, h⟩ => ⟨e, e ▸ h⟩⟩
        rw [key]
        cases hf : j.fault? m <;> simp [hi, hf]

section

variable {w : Word} {i : Instruction} (hh : m.halted = false) (hw : m.fetch = .ok w)
  (hi : w.decode = .ok i) (hd : i.UsesStack → m.stack.depth ≤ stackFrames)

include hh hw hi hd

/-- A running machine at an instruction that meets no fault carries it out. -/
theorem step_of_no_fault (hf : i.fault? m = none) :
    m.step.result = .ok () ∧ m.step.machine = m.after i := by
  have hx : i.execute m = .ok (i.target m) (i.change m) := by
    rw [Instruction.execute_eq (fetch_fits hw) i hd, hf]
  simp only [step, hh, hw, hi, dispatch, hx]
  exact ⟨rfl, rfl⟩

/-- A running machine at an instruction that meets a fault reports it and halts. -/
theorem step_of_fault {f : Fault} (hf : i.fault? m = some f) :
    m.step.result = .error (.fault f) ∧ m.step.machine = { m with halted := true } := by
  have hx : i.execute m = .error (.fault f) m := by
    rw [Instruction.execute_eq (fetch_fits hw) i hd, hf]
  simp only [step, hh, hw, hi, dispatch, hx]
  exact ⟨rfl, rfl⟩

end

/-- A step whose verdict is an instruction carries it out. -/
theorem step_of_verdict_ok {i : Instruction} (hd : m.stack.depth ≤ stackFrames)
    (h : m.verdict = .ok i) : m.step.result = .ok () ∧ m.step.machine = m.after i := by
  obtain ⟨hh, w, hw, hi, hf⟩ := verdict_ok_iff.mp h
  exact step_of_no_fault hh hw hi (fun _ => hd) hf

theorem verdict_error_iff {f : Fault} :
    m.verdict = .error f ↔
      m.halted = true ∧ f = .halted m.pc ∨
      m.halted = false ∧ (m.fetch = .error f ∨ ∃ w, m.fetch = .ok w ∧
        (w.decode = .error f ∨ ∃ i, w.decode = .ok i ∧ i.fault? m = some f)) := by
  unfold verdict
  cases m.halted with
  | true => simp [eq_comm]
  | false =>
    cases m.fetch with
    | error g => simp
    | ok w =>
      cases hi : w.decode with
      | error g => simp [hi]
      | ok i => cases hf : i.fault? m <;> simp [hi, hf]

/-- A step whose verdict is a fault reports it and changes nothing but the halted flag. -/
theorem step_of_verdict_error {f : Fault} (hd : m.stack.depth ≤ stackFrames)
    (h : m.verdict = .error f) :
    m.step.result = .error (.fault f) ∧ m.step.machine = { m with halted := true } := by
  rcases verdict_error_iff.mp h with ⟨hh, rfl⟩ | ⟨hh, hw | ⟨w, hw, hi | ⟨i, hi, hf⟩⟩⟩
  · simp only [step, hh, if_true, true_and]
    rw [← hh]
  · simp only [step, hh, hw]
    exact ⟨rfl, rfl⟩
  · simp only [step, hh, hw, hi]
    exact ⟨rfl, rfl⟩
  · exact step_of_fault hh hw hi (fun _ => hd) hf

/-- Machines of one verdict answer a step alike. -/
theorem result_step (hd : m.stack.depth ≤ stackFrames) :
    m.step.result = match m.verdict with
      | .ok _ => .ok ()
      | .error f => .error (.fault f) := by
  cases hv : m.verdict with
  | ok i => exact (step_of_verdict_ok hd hv).1
  | error f => exact (step_of_verdict_error hd hv).1

/-! ## The call stack over one instruction -/

/-- Only calls and returns touch the call stack. -/
theorem stack_after (m : Machine) (i : Instruction) :
    (m.after i).stack = match i with
      | .ret => m.stack.shrink
      | .call _ => m.stack.grow (m.pc + 2)
      | _ => m.stack := by
  cases i with
  | awaitKey x =>
    simp only [after, Instruction.change]
    cases m.keypad.lowestDown <;> rfl
  | _ => rfl

/-- A call appends the address after it to the live frames, a return takes the latest off. -/
theorem live_after {i : Instruction} (hd : m.stack.depth ≤ stackFrames) (hf : i.fault? m = none) :
    (m.after i).stack.live = match i with
      | .ret => m.stack.live.dropLast
      | .call _ => m.stack.live ++ [m.pc + 2]
      | _ => m.stack.live := by
  rw [stack_after]
  cases i with
  | ret =>
    exact CallStack.live_shrink hd (Instruction.fault?_ret_eq_none_iff.mp hf)
  | call address =>
    have hne := Instruction.fault?_call_eq_none_iff.mp hf
    exact CallStack.live_grow (Nat.lt_of_le_of_ne hd hne) _
  | _ => rfl

theorem depth_after_le {i : Instruction} (hd : m.stack.depth ≤ stackFrames) (hf : i.fault? m = none) :
    (m.after i).stack.depth ≤ stackFrames := by
  rw [stack_after]
  cases i with
  | ret => exact Nat.le_trans (Nat.sub_le _ _) hd
  | call address =>
    have hne := Instruction.fault?_call_eq_none_iff.mp hf
    exact Nat.lt_of_le_of_ne hd hne
  | _ => exact hd

/-! ## Requests and runs -/

/-- A request is a step, or leaves all but memory, timers and keypad. -/
theorem perform_cases (m : Machine) (op : Operation) :
    op = .step ∨ ∃ memory delay sound keypad, (m.perform op).machine =
      { m with memory := memory, delay := delay, sound := sound, keypad := keypad } := by
  cases op with
  | load image =>
    refine .inr ?_
    simp only [perform, load]
    split
    · exact ⟨_, m.delay, m.sound, m.keypad, rfl⟩
    · exact ⟨m.memory, m.delay, m.sound, m.keypad, rfl⟩
  | step => exact .inl rfl
  | tick ticks => exact .inr ⟨m.memory, m.delay.elapse ticks, m.sound.elapse ticks, m.keypad, rfl⟩
  | setKey key pressed =>
    refine .inr ?_
    simp only [perform, setKey]
    split
    · exact ⟨m.memory, m.delay, m.sound, _, rfl⟩
    · exact ⟨m.memory, m.delay, m.sound, m.keypad, rfl⟩

theorem run_append (m : Machine) (ops ops' : List Operation) :
    m.run (ops ++ ops') = (m.run ops).run ops' := by
  induction ops generalizing m with
  | nil => rfl
  | cons op rest ih => exact ih _

/-- What every request of a list keeps is kept by all of them. -/
theorem run_induction {P : Machine → Prop} {ops : List Operation}
    (hperform : ∀ op ∈ ops, ∀ m, P m → P (m.perform op).machine) (h : P m) : P (m.run ops) := by
  induction ops generalizing m with
  | nil => exact h
  | cons op rest ih =>
    obtain ⟨hop, hrest⟩ := List.forall_mem_cons.mp hperform
    exact ih hrest (hop m h)

end Machine

end Chip8
