import Chip8.Proofs.Overlay
import Chip8.Proofs.Ranges
import Chip8.Proofs.RoundTrip

/-!
# Skips and their opposites

Three questions can be asked by a word, each in two ways: `3xkk` and `4xkk` whether `Vx` is a constant, `5xy0`
and `9xy0` whether `Vx` is `Vy`, `Ex9E` and `ExA1` whether key `Vx` is down. The first word of a pair skips the
word after it where the answer is yes, the second where it is no. So of two machines that differ in this one
word only, one goes on four past it and the other two, wherever it stands, and neither changes anything else.
A question about a key that does not exist has no answer, and both machines halt.

* `Question.skips_iff`: the instructions of a pair skip on opposite answers.
* `Machine.goesOn_of_fetch`, `Machine.stops_of_fetch`: the step of either word of a pair.
* `Machine.skips_complementary`: the two steps of a pair side by side.
-/
namespace Chip8

/-- What a skip asks. -/
inductive Question where
  /-- Is `Vx` the constant? -/
  | constant (x : Register) (value : UInt8)
  /-- Is `Vx` the same as `Vy`? -/
  | same (x y : Register)
  /-- Is key `Vx` down? -/
  | key (x : Register)

namespace Question

/-- The word that skips where the answer is yes, and the one that skips where it is no. -/
def word (negated : Bool) : Question → Word
  | constant x value => .ofByte (if negated then 0x4 else 0x3) x value.toNat
  | same x y => .ofNibble (if negated then 0x9 else 0x5) x y 0
  | key x => .ofByte 0xE x (if negated then 0xA1 else 0x9E)

/-- The answer is yes. -/
def Yes (m : Machine) : Question → Prop
  | constant x value => m.registers.get x = value
  | same x y => m.registers.get x = m.registers.get y
  | key x => m.keypad.isDown (m.registers.get x).toNat = .ok true

/-- There is an answer: the key exists. -/
def Answerable (m : Machine) : Question → Prop
  | key x => (m.registers.get x).toNat ≤ 15
  | _ => True

/-- The instruction of a word that asks. -/
def instruction (negated : Bool) : Question → Instruction
  | constant x value => .skipConst x value negated
  | same x y => .skipSame x y negated
  | key x => .skipKey x negated

variable {m : Machine} {q : Question}

theorem row_instruction (q : Question) (negated : Bool) : (q.instruction negated).Row (q.word negated) := by
  cases q <;> exact Word.row_iff.mpr ⟨⟨trivial, by simp [instruction], by simp [instruction]⟩, rfl⟩

/-- The instructions of a pair skip on opposite answers. -/
theorem skips_iff (h : q.Answerable m) (negated : Bool) :
    (q.instruction negated).skips m = true ↔ (q.Yes m ↔ negated = false) := by
  have hopposite (answer : Bool) : (answer != negated) = true ↔ (answer = true ↔ negated = false) := by
    cases answer <;> cases negated <;> decide
  cases q with
  | constant x value =>
    show (m.registers.get x == value) != negated ↔ _
    rw [hopposite, beq_iff_eq]
    rfl
  | same x y =>
    show (m.registers.get x == m.registers.get y) != negated ↔ _
    rw [hopposite, beq_iff_eq]
    rfl
  | key x =>
    have hkey : (m.registers.get x).toNat < keyCount := Nat.lt_succ_of_le h
    show m.keypad.keys.toList.getD (m.registers.get x).toNat false != negated ↔ _
    rw [hopposite, Yes, Keypad.isDown_eq, if_pos hkey, Except.ok.injEq]

theorem fault?_of_answerable (h : q.Answerable m) (negated : Bool) :
    (q.instruction negated).fault? m = none := by
  cases q with
  | key x => exact if_pos (Nat.lt_succ_of_le h)
  | _ => rfl

theorem not_usesStack (q : Question) (negated : Bool) : ¬ (q.instruction negated).UsesStack := by
  cases q <;> exact id

/-- A skip leaves all but the program counter. -/
theorem after_instruction (m : Machine) (q : Question) (negated : Bool) :
    m.after (q.instruction negated) =
      { m with pc := if (q.instruction negated).skips m then m.pc + 2 + 2 else m.pc + 2 } := by
  cases q <;> rfl

end Question

namespace Machine

/-- The machine with a word put at the program counter. -/
def placing (m : Machine) (w : Word) : Machine :=
  { m with memory :=
      m.memory.overlay m.pc.toNat [UInt8.ofNat (w.toNat / 256), UInt8.ofNat (w.toNat % 256)] }

/-- A step succeeds, goes on a certain distance past the program counter and changes nothing else. -/
structure GoesOn (m : Machine) (distance : Nat) : Prop where
  result : m.step.result = .ok ()
  pc : m.step.machine.pc.toNat = m.pc.toNat + distance
  rest : m.step.machine = { m with pc := m.step.machine.pc }

/-- A step fails and halts the machine where it is. -/
structure Stops (m : Machine) (f : Fault) : Prop where
  result : m.step.result = .error (.fault f)
  machine : m.step.machine = { m with halted := true }

variable {m : Machine} {q : Question}

theorem fetch_placing (ha : m.pc.toNat ≤ 0xFFE) (w : Word) : (m.placing w).fetch = .ok w := by
  have hsize : memorySize = 4096 := rfl
  have hw := w.toNat_lt
  have hcell (k : Nat) (hk : k < 2) (hfit : m.pc.toNat + k < memorySize) :
      (m.placing w).memory.cells[m.pc.toNat + k] =
        [UInt8.ofNat (w.toNat / 256), UInt8.ofNat (w.toNat % 256)][k] :=
    Except.ok.inj ((Memory.read_of_lt _ hfit).symm.trans (m.memory.read_overlay_of_mem _ hk hfit))
  have hhigh : (m.placing w).memory.cells[m.pc.toNat] = UInt8.ofNat (w.toNat / 256) :=
    hcell 0 (by decide) (by omega)
  have hlow : (m.placing w).memory.cells[m.pc.toNat + 1] = UInt8.ofNat (w.toNat % 256) :=
    hcell 1 (by decide) (by omega)
  refine fetch_ok_iff.mpr ⟨Nat.add_le_add_right ha 2, ?_⟩
  show w.toNat = 256 * (m.placing w).memory.cells[m.pc.toNat].toNat +
    (m.placing w).memory.cells[m.pc.toNat + 1].toNat
  rw [hhigh, hlow, UInt8.toNat_ofNat', UInt8.toNat_ofNat']
  omega

theorem answerable_placing {w : Word} : q.Answerable (m.placing w) ↔ q.Answerable m := by
  cases q <;> exact Iff.rfl

theorem yes_placing {w : Word} : q.Yes (m.placing w) ↔ q.Yes m := by
  cases q <;> exact Iff.rfl

/-- A running machine at a word that asks skips, or does not, and that is all. -/
theorem goesOn_of_fetch {negated : Bool} (hh : m.halted = false) (hw : m.fetch = .ok (q.word negated))
    (h : q.Answerable m) : m.GoesOn (if (q.instruction negated).skips m then 4 else 2) := by
  have hfits := fetch_fits hw
  have hsize : memorySize = 4096 := rfl
  have hnext : (m.pc + 2).toNat = m.pc.toNat + 2 := toNat_add_two (by omega)
  obtain ⟨hresult, hmachine⟩ := step_of_no_fault hh hw (Word.decode_ok_iff.mpr (q.row_instruction negated))
    (fun hstack => absurd hstack (q.not_usesStack negated)) (Question.fault?_of_answerable h negated)
  rw [Question.after_instruction] at hmachine
  -- from the last word a skip goes past the end of memory, but not past the end of sixteen bits
  refine ⟨hresult, ?_, ?_⟩
  · rw [hmachine]
    cases (q.instruction negated).skips m with
    | true => exact (toNat_add_two (by omega)).trans (congrArg (· + 2) hnext)
    | false => exact hnext
  · rw [hmachine]

/-- A running machine at a word that asks about a key that does not exist halts. -/
theorem stops_of_fetch {x : Register} {negated : Bool} (hh : m.halted = false)
    (hw : m.fetch = .ok ((Question.key x).word negated)) (h : 15 < (m.registers.get x).toNat) :
    m.Stops (.invalidKey (m.registers.get x).toNat) := by
  have hfault : (Instruction.skipKey x negated).fault? m =
      some (.invalidKey (m.registers.get x).toNat) := if_neg (Nat.not_lt.mpr h)
  obtain ⟨hresult, hmachine⟩ := step_of_fault hh hw
    (Word.decode_ok_iff.mpr ((Question.key x).row_instruction negated)) False.elim hfault
  exact ⟨hresult, hmachine⟩

/-- With a word of a pair at the program counter, a running machine skips where the answer is the one that the
word asks for. -/
theorem goesOn_placing (hh : m.halted = false) (ha : m.pc.toNat ≤ 0xFFE) (h : q.Answerable m)
    (negated : Bool) :
    ((q.Yes m ↔ negated = false) → (m.placing (q.word negated)).GoesOn 4) ∧
      (¬ (q.Yes m ↔ negated = false) → (m.placing (q.word negated)).GoesOn 2) := by
  have hanswerable : q.Answerable (m.placing (q.word negated)) := answerable_placing.mpr h
  have hskips := Question.skips_iff hanswerable negated
  rw [yes_placing] at hskips
  have hstep := goesOn_of_fetch (m := m.placing (q.word negated)) hh (fetch_placing ha _) hanswerable
  constructor
  · intro hasked
    rwa [if_pos (hskips.mpr hasked)] at hstep
  · intro hother
    rwa [if_neg (mt hskips.mp hother)] at hstep

/-- On any running machine with a whole word at its program counter, and for each question that has an answer:
with the first word of the pair there the machine skips exactly where the answer is yes, with the second
exactly where it is no, and nothing else changes. Only a question about a key that does not exist has no
answer, and there both words halt the machine with the same fault. -/
theorem skips_complementary (m : Machine) (hh : m.halted = false) (ha : m.pc.toNat ≤ 0xFFE) :
    (∀ q : Question, q.Answerable m →
      (q.Yes m → (m.placing (q.word false)).GoesOn 4 ∧ (m.placing (q.word true)).GoesOn 2) ∧
      (¬ q.Yes m → (m.placing (q.word false)).GoesOn 2 ∧ (m.placing (q.word true)).GoesOn 4)) ∧
    ∀ x : Register, 15 < (m.registers.get x).toNat → ∀ negated,
      (m.placing ((Question.key x).word negated)).Stops (.invalidKey (m.registers.get x).toNat) := by
  refine ⟨fun q h => ?_, fun x h negated => stops_of_fetch (m := m.placing _) hh (fetch_placing ha _) h⟩
  obtain ⟨hyes, hno⟩ := goesOn_placing hh ha h false
  obtain ⟨hyes', hno'⟩ := goesOn_placing hh ha h true
  exact ⟨fun hq => ⟨hyes (by simp [hq]), hno' (by simp [hq])⟩,
    fun hq => ⟨hno (by simp [hq]), hyes' (by simp [hq])⟩⟩

/-- A machine whose last word is the next one, with a number in `V5` that no key has. -/
def atLastWord : Machine :=
  { new .classic (.ofSeed 0) with pc := 0xFFE, registers := Registers.blank.set ⟨5, by decide⟩ 16 }

/-- `3510` goes on past the end of memory and `4510` at the end, while `E59E` and `E5A1` both halt. -/
theorem skips_complementary_last_word :
    let x : Register := ⟨5, by decide⟩
    atLastWord.halted = false ∧ atLastWord.pc.toNat ≤ 0xFFE ∧ 15 < (atLastWord.registers.get x).toNat ∧
      (Question.constant x 16).Answerable atLastWord ∧ (Question.constant x 16).Yes atLastWord ∧
      (atLastWord.placing 0x3510).step.machine.pc = 0x1002 ∧
      (atLastWord.placing 0x4510).step.machine.pc = 0x1000 ∧
      (atLastWord.placing 0xE59E).step.result = .error (.fault (.invalidKey 16)) ∧
      (atLastWord.placing 0xE5A1).step.machine = { atLastWord.placing 0xE5A1 with halted := true } := by
  intro x
  have hh : atLastWord.halted = false := rfl
  have ha : atLastWord.pc.toNat ≤ 0xFFE := by decide
  have hno : 15 < (atLastWord.registers.get x).toNat := by decide
  have hyes : (Question.constant x 16).Yes atLastWord := by
    show atLastWord.registers.get x = 16
    decide
  have hequal : (Question.constant x 16).word false = 0x3510 := rfl
  have hunequal : (Question.constant x 16).word true = 0x4510 := rfl
  have hdown : (Question.key x).word false = 0xE59E := rfl
  have hup : (Question.key x).word true = 0xE5A1 := rfl
  obtain ⟨hanswered, hstops⟩ := skips_complementary atLastWord hh ha
  obtain ⟨hskips, hpasses⟩ := (hanswered (.constant x 16) trivial).1 hyes
  have hfirst := hstops x hno false
  have hsecond := hstops x hno true
  rw [hequal] at hskips
  rw [hunequal] at hpasses
  rw [hdown] at hfirst
  rw [hup] at hsecond
  refine ⟨hh, ha, hno, trivial, hyes, ?_, ?_, hfirst.result, hsecond.machine⟩
  · exact UInt16.toNat_inj.mp hskips.pc
  · exact UInt16.toNat_inj.mp hpasses.pc

end Machine
end Chip8
