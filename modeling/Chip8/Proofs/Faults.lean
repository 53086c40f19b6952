import Chip8.Proofs.Execution
import Chip8.Proofs.Opcodes

/-!
# When a step fails, and what it leaves

`Machine.Faults` is the fault table: one row for each way a step can fail, said of the word in the
cells at the program counter, of its fields and of the registers, without decoding anything.

* `verdict_error_iff_faults`: the table is the verdict of the step.
* `step_error_iff_faults`: a running machine fails exactly on the rows of the table, with the fault of
  the row, and in no other way.
* `step_error_machine`: a failed step leaves every component as it was and sets the halted flag.
-/
namespace Chip8

theorem rangeFault?_eq_some_iff {address length : Nat} {f : Fault} :
    rangeFault? address length = some f ↔
      memorySize < address + length ∧ f = .addressOutOfRange (max address memorySize) := by
  unfold rangeFault?
  split
  · rename_i h
    simp only [reduceCtorEq, false_iff, not_and]
    intro hlt
    omega
  · rename_i h
    simp only [Option.some.injEq, eq_comm, iff_and_self]
    intro _
    omega

namespace Machine

variable {m : Machine} {f : Fault}

/-- `w` is the big-endian word in the two cells at the program counter, both inside memory. -/
def Holds (m : Machine) (w : Word) : Prop :=
  ∃ h : m.pc.toNat + 2 ≤ memorySize,
    w.toNat = 256 * m.memory.cells[m.pc.toNat].toNat + m.memory.cells[m.pc.toNat + 1].toNat

/-- The fault table. -/
inductive Faults (m : Machine) : Fault → Prop
  /-- The word is not wholly inside memory. -/
  | fetch (h : memorySize < m.pc.toNat + 2) :
    Faults m (.addressOutOfRange (max m.pc.toNat memorySize))
  | decode {w : Word} (hw : m.Holds w) (h : w.Unknown) : Faults m (.unknownOpcode w)
  /-- `00EE` with no frame in use. -/
  | ret (hw : m.Holds 0x00EE) (h : m.stack.depth = 0) : Faults m .stackUnderflow
  /-- `2nnn` with every frame in use. -/
  | call {w : Word} (hw : m.Holds w) (hf : w.family = 0x2) (h : m.stack.depth = stackFrames) :
    Faults m .stackOverflow
  /-- `Bnnn` to an address past the end. -/
  | jumpOffset {w : Word} (hw : m.Holds w) (hf : w.family = 0xB)
    (h : memorySize ≤ w.nnn.toNat + (m.registers.get .offset).toNat) :
    Faults m (.addressOutOfRange (w.nnn.toNat + (m.registers.get .offset).toNat))
  /-- `Dxyn` with a sprite that is not wholly inside memory. -/
  | draw {w : Word} (hw : m.Holds w) (hf : w.family = 0xD)
    (h : memorySize < m.index.toNat + w.n.toNat) :
    Faults m (.addressOutOfRange (max m.index.toNat memorySize))
  /-- `Ex9E` or `ExA1` about a key that does not exist. -/
  | skipKey {w : Word} (hw : m.Holds w) (hf : w.family = 0xE)
    (hk : w.kk.toNat = 0x9E ∨ w.kk.toNat = 0xA1) (h : keyCount ≤ (m.registers.get w.x).toNat) :
    Faults m (.invalidKey (m.registers.get w.x).toNat)
  /-- `Fx33` with three digits that are not wholly inside memory. -/
  | storeDecimal {w : Word} (hw : m.Holds w) (hf : w.family = 0xF) (hk : w.kk.toNat = 0x33)
    (h : memorySize < m.index.toNat + 3) :
    Faults m (.addressOutOfRange (max m.index.toNat memorySize))
  /-- `Fx55` or `Fx65` with registers whose cells are not wholly inside memory. -/
  | moveRegisters {w : Word} (hw : m.Holds w) (hf : w.family = 0xF)
    (hk : w.kk.toNat = 0x55 ∨ w.kk.toNat = 0x65) (h : memorySize < m.index.toNat + w.x.val + 1) :
    Faults m (.addressOutOfRange (max m.index.toNat memorySize))

theorem fetch_ok_iff {w : Word} : m.fetch = .ok w ↔ m.Holds w := by
  unfold fetch Memory.word Holds
  by_cases h : m.pc.toNat + 2 ≤ memorySize
  · have := m.memory.cells[m.pc.toNat].toNat_lt
    have := m.memory.cells[m.pc.toNat + 1].toNat_lt
    simp only [h, dif_pos, exists_true_left, Except.ok.injEq, ← UInt16.toNat_inj, UInt16.toNat_ofNat']
    omega
  · simp only [h, dif_neg, not_false_eq_true, reduceCtorEq, false_iff]
    rintro ⟨h', -⟩
    exact h'

theorem fetch_error_iff :
    m.fetch = .error f ↔
      memorySize < m.pc.toNat + 2 ∧ f = .addressOutOfRange (max m.pc.toNat memorySize) := by
  unfold fetch Memory.word
  split
  · simp only [reduceCtorEq, false_iff, not_and]
    intro h
    omega
  · simp only [Except.error.injEq, eq_comm, iff_and_self]
    intro _
    omega

/-- An instruction in the row of the word at the program counter fails only on a row of the table. -/
theorem faults_of_fault? {w : Word} {i : Instruction} (hw : m.Holds w) (hi : i.Row w)
    (hf : i.fault? m = some f) : m.Faults f := by
  cases i with
  | ret =>
    simp only [Instruction.fault?, Option.ite_none_right_eq_some] at hf
    obtain ⟨h, ⟨⟩⟩ := hf
    have hi : w = 0x00EE := hi
    exact .ret (hi ▸ hw) h
  | call address =>
    simp only [Instruction.fault?, Option.ite_none_right_eq_some] at hf
    obtain ⟨h, ⟨⟩⟩ := hf
    exact .call hw hi.1 h
  | jumpOffset address =>
    simp only [Instruction.fault?, Option.ite_none_left_eq_some] at hf
    obtain ⟨h, ⟨⟩⟩ := hf
    obtain ⟨hb, rfl⟩ := hi
    exact .jumpOffset hw hb (Nat.not_lt.mp h)
  | draw x y rows =>
    obtain ⟨hd, -, -, rfl⟩ := hi
    obtain ⟨h, rfl⟩ := rangeFault?_eq_some_iff.mp hf
    exact .draw hw hd h
  | skipKey x negated =>
    simp only [Instruction.fault?, Option.ite_none_left_eq_some] at hf
    obtain ⟨h, ⟨⟩⟩ := hf
    obtain ⟨he, hk, rfl⟩ := hi
    refine .skipKey hw he ?_ (Nat.not_lt.mp h)
    cases negated
    · exact .inl hk
    · exact .inr hk
  | storeDecimal x =>
    obtain ⟨hF, hk, -⟩ := hi
    obtain ⟨h, rfl⟩ := rangeFault?_eq_some_iff.mp hf
    exact .storeDecimal hw hF hk h
  | storeRegisters x =>
    obtain ⟨hF, hk, rfl⟩ := hi
    obtain ⟨h, rfl⟩ := rangeFault?_eq_some_iff.mp hf
    exact .moveRegisters hw hF (.inl hk) h
  | loadRegisters x =>
    obtain ⟨hF, hk, rfl⟩ := hi
    obtain ⟨h, rfl⟩ := rangeFault?_eq_some_iff.mp hf
    exact .moveRegisters hw hF (.inr hk) h
  | _ => cases hf

theorem verdict_of_row {w : Word} {i : Instruction} (hh : m.halted = false) (hw : m.Holds w)
    (hi : i.Row w) (hf : i.fault? m = some f) : m.verdict = .error f :=
  verdict_error_iff.mpr
    (.inr ⟨hh, .inr ⟨w, fetch_ok_iff.mpr hw, .inr ⟨i, Word.decode_ok_iff.mpr hi, hf⟩⟩⟩)

theorem verdict_of_faults (hh : m.halted = false) (h : m.Faults f) : m.verdict = .error f := by
  cases h with
  | fetch h => exact verdict_error_iff.mpr (.inr ⟨hh, .inl (fetch_error_iff.mpr ⟨h, rfl⟩)⟩)
  | @decode w hw h =>
    exact verdict_error_iff.mpr
      (.inr ⟨hh, .inr ⟨w, fetch_ok_iff.mpr hw, .inl (Word.decode_error_iff.mpr ⟨h, rfl⟩)⟩⟩)
  | ret hw h => exact verdict_of_row (i := .ret) hh hw rfl (by simp [Instruction.fault?, h])
  | @call w hw hf h =>
    exact verdict_of_row (i := .call w.nnn) hh hw ⟨hf, rfl⟩ (by simp [Instruction.fault?, h])
  | @jumpOffset w hw hf h =>
    exact verdict_of_row (i := .jumpOffset w.nnn) hh hw ⟨hf, rfl⟩
      (by simp [Instruction.fault?, Nat.not_lt.mpr h])
  | @draw w hw hf h =>
    exact verdict_of_row (i := .draw w.x w.y w.n) hh hw ⟨hf, rfl, rfl, rfl⟩
      (rangeFault?_eq_some_iff.mpr ⟨h, rfl⟩)
  | @skipKey w hw hf hk h =>
    have hfault : ∀ negated, (Instruction.skipKey w.x negated).fault? m =
        some (.invalidKey (m.registers.get w.x).toNat) := by
      simp [Instruction.fault?, Nat.not_lt.mpr h]
    rcases hk with hk | hk
    · exact verdict_of_row (i := .skipKey w.x false) hh hw ⟨hf, hk, rfl⟩ (hfault _)
    · exact verdict_of_row (i := .skipKey w.x true) hh hw ⟨hf, hk, rfl⟩ (hfault _)
  | @storeDecimal w hw hf hk h =>
    exact verdict_of_row (i := .storeDecimal w.x) hh hw ⟨hf, hk, rfl⟩
      (rangeFault?_eq_some_iff.mpr ⟨h, rfl⟩)
  | @moveRegisters w hw hf hk h =>
    have hfault : rangeFault? m.index.toNat (w.x.val + 1) = some _ :=
      rangeFault?_eq_some_iff.mpr ⟨h, rfl⟩
    rcases hk with hk | hk
    · exact verdict_of_row (i := .storeRegisters w.x) hh hw ⟨hf, hk, rfl⟩ hfault
    · exact verdict_of_row (i := .loadRegisters w.x) hh hw ⟨hf, hk, rfl⟩ hfault

/-- The verdict on a running machine is a fault exactly on the rows of the table. -/
theorem verdict_error_iff_faults (hh : m.halted = false) : m.verdict = .error f ↔ m.Faults f := by
  refine ⟨fun h => ?_, verdict_of_faults hh⟩
  rcases verdict_error_iff.mp h with ⟨hh', -⟩ | ⟨-, hw | ⟨w, hw, hi | ⟨i, hi, hf⟩⟩⟩
  · rw [hh] at hh'
    cases hh'
  · obtain ⟨hlt, rfl⟩ := fetch_error_iff.mp hw
    exact .fetch hlt
  · obtain ⟨hu, rfl⟩ := Word.decode_error_iff.mp hi
    exact .decode (fetch_ok_iff.mp hw) hu
  · exact faults_of_fault? (fetch_ok_iff.mp hw) (Word.decode_ok_iff.mp hi) hf

/-- A failed step changes no component of the machine but the halted flag. -/
theorem step_error_machine (m : Machine) (hd : m.stack.depth ≤ 16) (e : Stop)
    (he : m.step.result = .error e) : m.step.machine = { m with halted := true } := by
  cases hv : m.verdict with
  | error f => exact (step_of_verdict_error hd hv).2
  | ok i =>
    rw [(step_of_verdict_ok hd hv).1] at he
    cases he

/-- A machine about to draw a sprite of five rows, of which two are past the end of memory. -/
def spritePastEnd : Machine :=
  { new .classic (.ofSeed 0) with
    memory := Memory.blank.overlay imageStart [0xD1, 0x25], index := 0x0FFD }

set_option maxRecDepth 20000 in
theorem step_error_machine_sprite :
    spritePastEnd.stack.depth ≤ 16 ∧
      spritePastEnd.step.result = .error (.fault (.addressOutOfRange 4096)) ∧
      spritePastEnd.step.machine = { spritePastEnd with halted := true } := by
  have he : spritePastEnd.step.result = .error (.fault (.addressOutOfRange 4096)) := rfl
  exact ⟨by decide, he, step_error_machine spritePastEnd (by decide) _ he⟩

/-- A step of a running machine fails exactly on the rows of the fault table, with the fault of the
row, and succeeds everywhere else. -/
theorem step_error_iff_faults (m : Machine) (hd : m.stack.depth ≤ 16) (hh : m.halted = false) :
    (∀ e, m.step.result = .error e ↔ ∃ f, m.Faults f ∧ e = .fault f) ∧
      (m.step.result = .ok () ↔ ∀ f, ¬ m.Faults f) := by
  cases hv : m.verdict with
  | error f =>
    have hf := (verdict_error_iff_faults hh).mp hv
    rw [(step_of_verdict_error hd hv).1]
    refine ⟨fun e => ⟨?_, ?_⟩, ?_⟩
    · rintro ⟨⟩
      exact ⟨f, hf, rfl⟩
    · rintro ⟨g, hg, rfl⟩
      rw [← verdict_error_iff_faults hh, hv] at hg
      cases hg
      rfl
    · exact ⟨(fun h => by cases h), fun h => absurd hf (h f)⟩
  | ok i =>
    have hno : ∀ f, ¬ m.Faults f := fun f hf => by
      rw [← verdict_error_iff_faults hh, hv] at hf
      cases hf
    rw [(step_of_verdict_ok hd hv).1]
    refine ⟨fun e => ⟨?_, ?_⟩, ?_⟩
    · rintro ⟨⟩
    · rintro ⟨g, hg, -⟩
      exact absurd hg (hno g)
    · exact ⟨fun _ => hno, fun _ => rfl⟩

/-- A machine about to ask for key sixteen. -/
def keyPastLast : Machine :=
  { new .modern (.ofSeed 0) with
    memory := Memory.blank.overlay imageStart [0xE3, 0x9E]
    registers := Registers.blank.set ⟨3, by decide⟩ 16 }

theorem step_error_iff_faults_key :
    keyPastLast.stack.depth ≤ 16 ∧ keyPastLast.halted = false ∧
      keyPastLast.Faults (.invalidKey 16) ∧
      keyPastLast.step.result = .error (.fault (.invalidKey 16)) := by
  have hw : keyPastLast.Holds 0xE39E := ⟨by decide, by decide +kernel⟩
  have hf : keyPastLast.Faults (.invalidKey 16) :=
    .skipKey hw (by decide) (.inl (by decide)) (by decide)
  have hiff := (step_error_iff_faults keyPastLast (by decide) rfl).1 (.fault (.invalidKey 16))
  exact ⟨by decide, rfl, hf, hiff.mpr ⟨_, hf, rfl⟩⟩

end Machine

end Chip8
