import Chip8.Proofs.Executed
import Chip8.Proofs.Overlay
import Mathlib.Tactic.ByContra

/-!
# What a step may change

Each component of the machine is changed by the instructions of a few words only. `Footprint` is the
table of them, said of the fields of the word that a step carries out; it does not mention decoding.

The components of `Machine.after` come first, one lemma each: which instructions touch the component, and
that the others leave it as it was. Read through `Instruction.Row` they are the rows of the table.

* `footprint_after`: carrying out the instruction of a word stays within the table.
* `read_run`: a cell that no store carried out covers keeps its byte over a run without a load.
* `step_footprint_and_loaded_bytes`: both, with the run from a loaded machine and the bytes that were loaded.
-/
namespace Chip8

namespace Word

/-- A word `Fx33` or `Fx55` that stores over a cell, where the index is `index`. -/
def Stores (w : Word) (index : UInt16) (a : Nat) : Prop :=
  w.family = 0xF ∧
    (w.kk.toNat = 0x33 ∧ index.toNat ≤ a ∧ a ≤ index.toNat + 2 ∨
      w.kk.toNat = 0x55 ∧ index.toNat ≤ a ∧ a ≤ index.toNat + w.x.val)

/-- A word that may set a register: `Vx` itself, the registers up to `Vx`, or the flag. -/
def Sets (w : Word) (j : Register) : Prop :=
  j = w.x ∧ (w.family = 0x6 ∨ w.family = 0x7 ∨ w.family = 0x8 ∨ w.family = 0xC ∨
      w.family = 0xF ∧ (w.kk.toNat = 0x07 ∨ w.kk.toNat = 0x0A)) ∨
    j ≤ w.x ∧ w.family = 0xF ∧ w.kk.toNat = 0x65 ∨
    j = .flag ∧ (w.family = 0x8 ∧ w.n.toNat ∈ [0x4, 0x5, 0x6, 0x7, 0xE] ∨ w.family = 0xD)

instance (w : Word) (index : UInt16) (a : Nat) : Decidable (w.Stores index a) :=
  inferInstanceAs (Decidable (_ ∧ _))

end Word

/-- What carrying out a word may change, from one machine to the next. -/
structure Footprint (w : Word) (m m' : Machine) : Prop where
  memory : ∀ a, m'.memory.read a ≠ m.memory.read a → w.Stores m.index a
  screen : m'.screen ≠ m.screen → w = 0x00E0 ∨ w.family = 0xD
  stack : m'.stack ≠ m.stack → w.family = 0x2 ∨ w = 0x00EE
  index : m'.index ≠ m.index →
    w.family = 0xA ∨ w.family = 0xF ∧ (w.kk.toNat = 0x1E ∨ w.kk.toNat = 0x29 ∨
      m.dialect.advancesIndex = true ∧ (w.kk.toNat = 0x55 ∨ w.kk.toNat = 0x65))
  delay : m'.delay ≠ m.delay → w.family = 0xF ∧ w.kk.toNat = 0x15
  sound : m'.sound ≠ m.sound → w.family = 0xF ∧ w.kk.toNat = 0x18
  random : m'.random ≠ m.random → w.family = 0xC
  registers : ∀ j, m'.registers.get j ≠ m.registers.get j → w.Sets j
  keypad : m'.keypad = m.keypad
  dialect : m'.dialect = m.dialect
  halted : m'.halted = m.halted

/-- An operation on registers writes `Vx`, and the flag if it has one. -/
theorem Registers.get_applyAlu_of_ne (r : Registers) (dialect : Dialect) (op : AluOp) {x j : Register}
    (y : Register) (hx : j ≠ x) (hf : j = .flag → op.code ∉ [0x4, 0x5, 0x6, 0x7, 0xE]) :
    (r.applyAlu dialect op x y).get j = r.get j := by
  have hset : ∀ (value : UInt8), (r.set x value).get j = r.get j := by
    intro value
    rw [get_set, if_neg hx.symm]
  cases op with
  | copy | or | and | xor => exact hset _
  | add | subtract | shiftRight | subtractFrom | shiftLeft =>
    have hflag : Register.flag ≠ j := fun h => hf h.symm (by decide)
    exact (get_set _ _ _ _).trans ((if_neg hflag).trans (hset _))

namespace Machine

variable (m : Machine) (i : Instruction)

/-! ## The components after an instruction -/

theorem memory_after :
    (m.after i).memory = match i with
      | .storeDecimal x => m.memory.overlay m.index.toNat (decimalDigits (m.registers.get x))
      | .storeRegisters x => m.memory.overlay m.index.toNat (m.registers.upTo x)
      | _ => m.memory := by
  cases i with
  | awaitKey x => rw [after, Instruction.change_awaitKey]
  | _ => rfl

theorem screen_after :
    (m.after i).screen = match i with
      | .clearScreen => .blank
      | .draw x y rows =>
        (m.screen.draw (m.registers.get x).toNat (m.registers.get y).toNat
          (m.memory.bytes m.index.toNat rows.toNat)).1
      | _ => m.screen := by
  cases i with
  | awaitKey x => rw [after, Instruction.change_awaitKey]
  | _ => rfl

theorem index_after :
    (m.after i).index = match i with
      | .setIndex address => address
      | .addIndex x => m.index + (m.registers.get x).toUInt16
      | .pointGlyph x => UInt16.ofNat (glyphStart + (m.registers.get x).toNat % 16 * glyphSize)
      | .storeRegisters x => m.movedIndex (x.val + 1)
      | .loadRegisters x => m.movedIndex (x.val + 1)
      | _ => m.index := by
  cases i with
  | awaitKey x => rw [after, Instruction.change_awaitKey]
  | _ => rfl

theorem timers_after :
    (m.after i).delay = (match i with
      | .setDelay x => ⟨m.registers.get x⟩
      | _ => m.delay) ∧
    (m.after i).sound = match i with
      | .setSound x => ⟨m.registers.get x⟩
      | _ => m.sound := by
  cases i with
  | awaitKey x => rw [after, Instruction.change_awaitKey]; exact ⟨rfl, rfl⟩
  | _ => exact ⟨rfl, rfl⟩

theorem random_after :
    (m.after i).random = match i with
      | .random _ _ => m.random.advance
      | _ => m.random := by
  cases i with
  | awaitKey x => rw [after, Instruction.change_awaitKey]
  | _ => rfl

theorem registers_after :
    (m.after i).registers = match i with
      | .put x value => m.registers.set x value
      | .addConst x value => m.registers.set x (m.registers.get x + value)
      | .alu op x y => m.registers.applyAlu m.dialect op x y
      | .random x mask => m.registers.set x (m.random.next &&& mask)
      | .draw x y rows =>
        m.registers.set .flag (if (m.screen.draw (m.registers.get x).toNat (m.registers.get y).toNat
          (m.memory.bytes m.index.toNat rows.toNat)).2 then 1 else 0)
      | .readDelay x => m.registers.set x m.delay.left
      | .awaitKey x => match m.keypad.lowestDown with
        | some key => m.registers.set x (UInt8.ofNat key)
        | none => m.registers
      | .loadRegisters x => m.registers.overlay 0 (m.memory.bytes m.index.toNat (x.val + 1))
      | _ => m.registers := by
  cases i with
  | awaitKey x => exact congrArg registers (Instruction.change_awaitKey m x)
  | _ => rfl

theorem rest_after :
    (m.after i).keypad = m.keypad ∧ (m.after i).dialect = m.dialect ∧
      (m.after i).halted = m.halted := by
  cases i with
  | awaitKey x => rw [after, Instruction.change_awaitKey]; exact ⟨rfl, rfl, rfl⟩
  | _ => exact ⟨rfl, rfl, rfl⟩

/-! ## The table -/

variable {m i}

theorem advances_of_movedIndex_ne {count : Nat} (h : m.movedIndex count ≠ m.index) :
    m.dialect.advancesIndex = true := by
  by_contra hno
  exact h (if_neg hno)

theorem memory_footprint {w : Word} (hi : i.Row w) {a : Nat}
    (h : (m.after i).memory.read a ≠ m.memory.read a) : w.Stores m.index a := by
  -- only the two stores leave a cell that can differ, and past the bytes they store it does not
  rw [memory_after] at h
  cases i with
  | storeDecimal x =>
    obtain ⟨hF, hk, -⟩ := hi
    have hlen : (decimalDigits (m.registers.get x)).length = 3 := rfl
    refine ⟨hF, .inl ⟨hk, ?_⟩⟩
    by_contra hout
    exact h (Memory.read_overlay_of_not_mem _ _ (by omega))
  | storeRegisters x =>
    obtain ⟨hF, hk, rfl⟩ := hi
    have hlen := m.registers.length_upTo w.x
    refine ⟨hF, .inr ⟨hk, ?_⟩⟩
    by_contra hout
    exact h (Memory.read_overlay_of_not_mem _ _ (by omega))
  | _ => exact absurd rfl h

theorem registers_footprint {w : Word} (hi : i.Row w) {j : Register}
    (h : (m.after i).registers.get j ≠ m.registers.get j) : w.Sets j := by
  have hset : ∀ {x : Register} {value : UInt8},
      (m.registers.set x value).get j ≠ m.registers.get j → j = x := by
    intro x value hne
    by_contra hx
    exact hne ((Registers.get_set _ _ _ _).trans (if_neg fun h => hx h.symm))
  rw [registers_after] at h
  cases i with
  | put x value =>
    obtain ⟨hf, rfl, -⟩ := hi
    exact .inl ⟨hset h, .inl hf⟩
  | addConst x value =>
    obtain ⟨hf, rfl, -⟩ := hi
    exact .inl ⟨hset h, .inr (.inl hf)⟩
  | alu op x y =>
    obtain ⟨hf, hn, rfl, -⟩ := hi
    by_cases hx : j = w.x
    · exact .inl ⟨hx, .inr (.inr (.inl hf))⟩
    · -- then it can only be the flag, and only where the operation has one
      by_contra hno
      refine h (Registers.get_applyAlu_of_ne _ _ _ _ hx fun hj hcode => ?_)
      exact hno (.inr (.inr ⟨hj, .inl ⟨hf, hn ▸ hcode⟩⟩))
  | random x mask =>
    obtain ⟨hf, rfl, -⟩ := hi
    exact .inl ⟨hset h, .inr (.inr (.inr (.inl hf)))⟩
  | draw x y rows => exact .inr (.inr ⟨hset h, .inr hi.1⟩)
  | readDelay x =>
    obtain ⟨hf, hk, rfl⟩ := hi
    exact .inl ⟨hset h, .inr (.inr (.inr (.inr ⟨hf, .inl hk⟩)))⟩
  | awaitKey x =>
    obtain ⟨hf, hk, rfl⟩ := hi
    refine .inl ⟨?_, .inr (.inr (.inr (.inr ⟨hf, .inr hk⟩)))⟩
    cases hdown : m.keypad.lowestDown with
    | some key =>
      rw [hdown] at h
      exact hset h
    | none =>
      rw [hdown] at h
      exact absurd rfl h
  | loadRegisters x =>
    obtain ⟨hf, hk, rfl⟩ := hi
    have hlen : (m.memory.bytes m.index.toNat (w.x.val + 1)).length ≤ w.x.val + 1 :=
      List.length_take_le _ _
    refine .inr (.inl ⟨?_, hf, hk⟩)
    by_contra hout
    have hpast : w.x.val < j.val := Fin.not_le.mp hout
    exact h (Registers.get_overlay_of_le _ _ (by omega))
  | _ => exact absurd rfl h

/-- Carrying out the instruction of a word changes only what the word names. -/
theorem footprint_after {w : Word} (hi : i.Row w) : Footprint w m (m.after i) where
  memory _ h := memory_footprint hi h
  registers _ h := registers_footprint hi h
  screen h := by
    rw [screen_after] at h
    cases i with
    | clearScreen => exact .inl hi
    | draw x y rows => exact .inr hi.1
    | _ => exact absurd rfl h
  stack h := by
    rw [stack_after] at h
    cases i with
    | ret => exact .inr hi
    | call address => exact .inl hi.1
    | _ => exact absurd rfl h
  index h := by
    rw [index_after] at h
    cases i with
    | setIndex address => exact .inl hi.1
    | addIndex x => exact .inr ⟨hi.1, .inl hi.2.1⟩
    | pointGlyph x => exact .inr ⟨hi.1, .inr (.inl hi.2.1)⟩
    | storeRegisters x =>
      exact .inr ⟨hi.1, .inr (.inr ⟨advances_of_movedIndex_ne h, .inl hi.2.1⟩)⟩
    | loadRegisters x =>
      exact .inr ⟨hi.1, .inr (.inr ⟨advances_of_movedIndex_ne h, .inr hi.2.1⟩)⟩
    | _ => exact absurd rfl h
  delay h := by
    rw [(timers_after m i).1] at h
    cases i with
    | setDelay x => exact ⟨hi.1, hi.2.1⟩
    | _ => exact absurd rfl h
  sound h := by
    rw [(timers_after m i).2] at h
    cases i with
    | setSound x => exact ⟨hi.1, hi.2.1⟩
    | _ => exact absurd rfl h
  random h := by
    rw [random_after] at h
    cases i with
    | random x mask => exact hi.1
    | _ => exact absurd rfl h
  keypad := (rest_after m i).1
  dialect := (rest_after m i).2.1
  halted := (rest_after m i).2.2

theorem footprint_step (hd : m.stack.depth ≤ stackFrames) {w : Word} (h : m.carried .step = some w) :
    Footprint w m m.step.machine := by
  rcases step_cases hd with ⟨f, -, hnone, -⟩ | ⟨w', i, -, hw', hi, -, -, hm⟩
  · rw [h] at hnone
    cases hnone
  · cases h.symm.trans hw'
    rw [hm]
    exact footprint_after hi

/-! ## Memory over a run -/

theorem read_perform (hd : m.stack.depth ≤ stackFrames) {op : Operation}
    (hload : ∀ image, op ≠ .load image) {a : Nat}
    (hs : ∀ w, m.carried op = some w → ¬ w.Stores m.index a) :
    (m.perform op).machine.memory.read a = m.memory.read a := by
  cases op with
  | load image => exact absurd rfl (hload image)
  | step =>
    rcases step_cases hd with ⟨f, -, -, -, hm⟩ | ⟨w, i, -, hw, -⟩
    · simp only [perform, hm]
    · by_contra hne
      exact hs w hw ((footprint_step hd hw).memory a hne)
  | tick ticks => rfl
  | setKey key pressed =>
    simp only [perform, setKey]
    split <;> rfl

theorem read_run (hd : m.stack.depth ≤ stackFrames) (ops : List Operation)
    (hload : ∀ image, .load image ∉ ops) {a : Nat}
    (hs : ∀ e ∈ m.executed ops, ¬ e.2.Stores e.1.index a) :
    (m.run ops).memory.read a = m.memory.read a := by
  induction ops generalizing m with
  | nil => rfl
  | cons op rest ih =>
    obtain ⟨hfirst, hrest⟩ := forall_executed_cons.mp hs
    have hop : ∀ image, op ≠ .load image := by
      rintro image rfl
      exact hload image List.mem_cons_self
    have htail : ∀ image, .load image ∉ rest := fun image h => hload image (List.mem_cons_of_mem _ h)
    rw [run, ih (depth_le_perform hd op) htail hrest, read_perform hd hop hfirst]

theorem memory_of_load_ok {image : List UInt8} (h : (m.load image).result = .ok ()) :
    m.memory.load image = .ok (m.load image).machine.memory := by
  unfold load at h ⊢
  cases hm : m.memory.load image with
  | ok memory => rfl
  | error f =>
    rw [hm] at h
    cases h

/-- A step that carries out a word changes only what the word names. And from a loaded machine on, as long
as nothing is loaded, each byte of the glyph table and of the image stays as it was loaded unless a store
that is carried out covers its cell. -/
theorem step_footprint_and_loaded_bytes (m : Machine) (hd : m.stack.depth ≤ 16) :
    (∀ w, m.halted = false → m.Holds w → m.step.result = .ok () → Footprint w m m.step.machine) ∧
      ∀ image ops, (m.load image).result = .ok () → (∀ image', Operation.load image' ∉ ops) →
        let loaded := (m.load image).machine
        let Covered (a : Nat) := ∃ e ∈ loaded.executed ops, e.2.Stores e.1.index a
        (∀ k, (hk : k < glyphTable.length) → ¬ Covered (glyphStart + k) →
          (loaded.run ops).memory.read (glyphStart + k) = .ok glyphTable[k]) ∧
        ∀ k, (hk : k < image.length) → ¬ Covered (imageStart + k) →
          (loaded.run ops).memory.read (imageStart + k) = .ok image[k] := by
  refine ⟨fun w _ hw hok => footprint_step hd (carried_step_iff.mpr ⟨hok, hw⟩), ?_⟩
  intro image ops hok hload loaded Covered
  have hmem := memory_of_load_ok hok
  have hdepth : loaded.stack.depth ≤ stackFrames := depth_le_perform hd (.load image)
  have hkeep : ∀ a, ¬ Covered a → (loaded.run ops).memory.read a = loaded.memory.read a := by
    intro a ha
    exact read_run hdepth ops hload fun e he hs => ha ⟨e, he, hs⟩
  refine ⟨fun k hk hc => ?_, fun k hk hc => ?_⟩
  · rw [hkeep _ hc]
    exact Memory.read_load_glyphs hmem hk
  · rw [hkeep _ hc]
    exact Memory.read_load_image hmem hk

/-- A program that stores three digits in the cells right behind it, and then returns from no call. -/
def storeBehind : List UInt8 := [0xA2, 0x08, 0x62, 0x07, 0xF2, 0x33, 0x00, 0xEE]

/-- Runs `storeBehind` to its fault, with a tick and a key between. -/
def storeBehindRun : List Operation := [.step, .step, .step, .tick 1, .setKey 3 true, .step]

theorem step_footprint_and_loaded_bytes_behind :
    let m := new .classic (.ofSeed 0)
    let loaded := (m.load storeBehind).machine
    let third := loaded.run [.step, .step]
    (third.stack.depth ≤ 16 ∧ third.halted = false ∧ third.Holds 0xF233 ∧ third.step.result = .ok () ∧
      Footprint 0xF233 third third.step.machine) ∧
    (m.stack.depth ≤ 16 ∧ (m.load storeBehind).result = .ok () ∧
      (∀ image, Operation.load image ∉ storeBehindRun) ∧
      (∃ e ∈ loaded.executed storeBehindRun, e.2.Stores e.1.index 0x208) ∧
      ¬ (∃ e ∈ loaded.executed storeBehindRun, e.2.Stores e.1.index 0x207) ∧
      (loaded.run storeBehindRun).memory.read 0x207 = .ok 0xEE) := by
  have hrun :
      let m := new .classic (.ofSeed 0)
      let loaded := (m.load storeBehind).machine
      let third := loaded.run [.step, .step]
      (third.stack.depth ≤ 16 ∧ third.halted = false ∧ third.carried .step = some 0xF233) ∧
        m.stack.depth ≤ 16 ∧
        (∃ e ∈ loaded.executed storeBehindRun, e.2.Stores e.1.index 0x208) ∧
        ¬ ∃ e ∈ loaded.executed storeBehindRun, e.2.Stores e.1.index 0x207 := by
    decide +kernel
  have hload : ∀ image, Operation.load image ∉ storeBehindRun := by
    simp [storeBehindRun]
  -- the closed machine must not be evaluated again
  generalize new .classic (.ofSeed 0) = m at hrun ⊢
  obtain ⟨⟨hd3, hh, hcarried⟩, hd, hcovers, hfree⟩ := hrun
  obtain ⟨hok3, hw⟩ := carried_step_iff.mp hcarried
  have hok : (m.load storeBehind).result = .ok () := rfl
  refine ⟨⟨hd3, hh, hw, hok3, ?_⟩, hd, hok, hload, hcovers, hfree, ?_⟩
  · exact (step_footprint_and_loaded_bytes _ hd3).1 0xF233 hh hw hok3
  · exact ((step_footprint_and_loaded_bytes m hd).2 storeBehind storeBehindRun hok hload).2 7
      (by decide) hfree

end Machine
end Chip8
