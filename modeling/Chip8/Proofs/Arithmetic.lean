import Chip8.Proofs.Footprint

/-!
# Arithmetic on two registers

The words `8xy?` compute from `Vx` and `Vy`, and five of the nine leave a flag in `VF`. `Word.Computes` says
by the last nibble what the registers hold afterwards, in unbounded numbers: a sum and its carry, a
difference and its borrow, a byte and the bit shifted out of it each solve one linear equation.

`x`, `y` and `F` may coincide in any way. The operands are the values from before the step in every case,
and where `Vx` is `VF` the flag is what stays of the solution.

* `Solves.of_set`: writing a solution, the flag last, is enough.
* `computes_applyAlu`: so every operation does what its nibble says.
* `step_computes`: and so does the step that carries its word out.
-/
namespace Chip8

/-- Register `x` takes a value, and no other register changes. -/
structure Replaces (x : Register) (value : UInt8) (r r' : Registers) : Prop where
  result : r'.get x = value
  others : ∀ j, j ≠ x → r'.get j = r.get j

/-- `Vx` and `VF` take a result and a flag that solve an equation, and no other register changes. Where
`Vx` is `VF` the result is lost, and the register holds the one flag that solves the equation with it. -/
structure Solves (x : Register) (equation : Nat → Nat → Prop) (r r' : Registers) : Prop where
  flag : (r'.get .flag).toNat ≤ 1
  result : x ≠ .flag → equation (r'.get x).toNat (r'.get .flag).toNat
  aliased : x = .flag → ∀ flag ≤ 1,
    (∃ value < 256, equation value flag) ↔ flag = (r'.get .flag).toNat
  others : ∀ j, j ≠ x → j ≠ .flag → r'.get j = r.get j

/-- What a word `8xy?` makes of the registers, by its last nibble. -/
def Word.Computes (w : Word) (dialect : Dialect) (r r' : Registers) : Prop :=
  let a := r.get w.x
  let b := r.get w.y
  let s := if dialect.shiftReadsVy then b else a
  match w.n.toNat with
  | 0x0 => Replaces w.x b r r'
  | 0x1 => Replaces w.x (a ||| b) r r'
  | 0x2 => Replaces w.x (a &&& b) r r'
  | 0x3 => Replaces w.x (a ^^^ b) r r'
  | 0x4 => Solves w.x (fun value flag => value + 256 * flag = a.toNat + b.toNat) r r'
  | 0x5 => Solves w.x (fun value flag => value + b.toNat = a.toNat + 256 * (1 - flag)) r r'
  | 0x6 => Solves w.x (fun value flag => 2 * value + flag = s.toNat) r r'
  | 0x7 => Solves w.x (fun value flag => value + a.toNat = b.toNat + 256 * (1 - flag)) r r'
  | 0xE => Solves w.x (fun value flag => value + 256 * flag = 2 * s.toNat) r r'
  | _ => False

variable {x : Register} {equation : Nat → Nat → Prop}

theorem Replaces.of_set (r : Registers) (x : Register) (value : UInt8) :
    Replaces x value r (r.set x value) where
  result := by rw [Registers.get_set, if_pos rfl]
  others j hj := by rw [Registers.get_set, if_neg hj.symm]

/-- The result and then the flag of a solution solve the equation, if it has one flag only. -/
theorem Solves.of_set (r : Registers) {value flag : UInt8} (hflag : flag.toNat ≤ 1)
    (hsolution : equation value.toNat flag.toNat)
    (honly : ∀ v < 256, ∀ v' < 256, ∀ f ≤ 1, ∀ f' ≤ 1, equation v f → equation v' f' → f = f') :
    Solves x equation r ((r.set x value).set .flag flag) := by
  have hget : ∀ j, ((r.set x value).set .flag flag).get j =
      if .flag = j then flag else if x = j then value else r.get j := by
    intro j
    rw [Registers.get_set, Registers.get_set]
  have hat : ((r.set x value).set .flag flag).get .flag = flag := by rw [hget, if_pos rfl]
  refine ⟨?_, ?_, ?_, ?_⟩
  · rw [hat]
    exact hflag
  · intro hx
    rw [hat, hget, if_neg hx.symm, if_pos rfl]
    exact hsolution
  · intro _ f hf
    rw [hat]
    constructor
    · rintro ⟨v, hv, h⟩
      exact honly v hv _ value.toNat_lt f hf _ hflag h hsolution
    · rintro rfl
      exact ⟨value.toNat, value.toNat_lt, hsolution⟩
  · intro j hx hj
    rw [hget, if_neg hj.symm, if_neg hx.symm]

/-! ## The solutions

Each pair is what `AluOp.compute` answers. -/

theorem carry_solution (a b : UInt8) {flag : UInt8}
    (h : flag = if a.toNat + b.toNat > 255 then 1 else 0) :
    flag.toNat ≤ 1 ∧ (a + b).toNat + 256 * flag.toNat = a.toNat + b.toNat := by
  have ha := a.toNat_lt
  have hb := b.toNat_lt
  have hsum : (a + b).toNat = (a.toNat + b.toNat) % 2 ^ 8 := UInt8.toNat_add a b
  split at h
  · rw [h, UInt8.toNat_one]
    omega
  · rw [h, UInt8.toNat_zero]
    omega

theorem borrow_solution (a b : UInt8) {flag : UInt8} (h : flag = if a < b then 0 else 1) :
    flag.toNat ≤ 1 ∧ (a - b).toNat + b.toNat = a.toNat + 256 * (1 - flag.toNat) := by
  have ha := a.toNat_lt
  have hb := b.toNat_lt
  have hdifference : (a - b).toNat = (2 ^ 8 - b.toNat + a.toNat) % 2 ^ 8 := UInt8.toNat_sub a b
  split at h
  · rename_i hlt
    rw [UInt8.lt_iff_toNat_lt] at hlt
    rw [h, UInt8.toNat_zero]
    omega
  · rename_i hle
    rw [UInt8.lt_iff_toNat_lt] at hle
    rw [h, UInt8.toNat_one]
    omega

theorem shiftRight_solution (s : UInt8) :
    (s % 2).toNat ≤ 1 ∧ 2 * (s / 2).toNat + (s % 2).toNat = s.toNat := by
  have hrest : (s / 2).toNat = s.toNat / 2 := UInt8.toNat_div s 2
  have hbit : (s % 2).toNat = s.toNat % 2 := UInt8.toNat_mod s 2
  omega

theorem shiftLeft_solution (s : UInt8) :
    (s / 128).toNat ≤ 1 ∧ (s * 2).toNat + 256 * (s / 128).toNat = 2 * s.toNat := by
  have hs := s.toNat_lt
  have hrest : (s * 2).toNat = s.toNat * 2 % 2 ^ 8 := UInt8.toNat_mul s 2
  have hbit : (s / 128).toNat = s.toNat / 128 := UInt8.toNat_div s 128
  omega

/-- An operation does what the nibble that names it says. -/
theorem computes_applyAlu {w : Word} {op : AluOp} (hn : w.n.toNat = op.code) (dialect : Dialect)
    (r : Registers) : w.Computes dialect r (r.applyAlu dialect op w.x w.y) := by
  unfold Word.Computes
  rw [hn]
  cases op with
  | copy => exact Replaces.of_set r _ _
  | or => exact Replaces.of_set r _ _
  | and => exact Replaces.of_set r _ _
  | xor => exact Replaces.of_set r _ _
  | add =>
    obtain ⟨hflag, hsolution⟩ := carry_solution (r.get w.x) (r.get w.y) rfl
    refine Solves.of_set r hflag hsolution ?_
    intros
    omega
  | subtract =>
    obtain ⟨hflag, hsolution⟩ := borrow_solution (r.get w.x) (r.get w.y) rfl
    refine Solves.of_set r hflag hsolution ?_
    intros
    omega
  | shiftRight =>
    obtain ⟨hflag, hsolution⟩ :=
      shiftRight_solution (if dialect.shiftReadsVy then r.get w.y else r.get w.x)
    refine Solves.of_set r hflag hsolution ?_
    intros
    omega
  | subtractFrom =>
    obtain ⟨hflag, hsolution⟩ := borrow_solution (r.get w.y) (r.get w.x) rfl
    refine Solves.of_set r hflag hsolution ?_
    intros
    omega
  | shiftLeft =>
    obtain ⟨hflag, hsolution⟩ :=
      shiftLeft_solution (if dialect.shiftReadsVy then r.get w.y else r.get w.x)
    refine Solves.of_set r hflag hsolution ?_
    intros
    omega

/-! ## The step -/

namespace Machine

variable {m : Machine}

/-- A running machine carries an operation out whatever its call stack. -/
theorem step_alu {w : Word} {op : AluOp} {y : Register} (hh : m.halted = false) (hw : m.Holds w)
    (hi : (Instruction.alu op x y).Row w) :
    m.step.result = .ok () ∧
      m.step.machine =
        { m with pc := m.pc + 2, registers := m.registers.applyAlu m.dialect op x y } :=
  step_of_no_fault hh (fetch_ok_iff.mpr hw) (Word.decode_ok_iff.mpr hi) False.elim rfl

/-- A running machine at a word `8xy?` of the table carries it out, whatever its registers and its
dialect: the registers are what the nibble says, and nothing else changes but the program counter. -/
theorem step_computes (m : Machine) (w : Word) (hh : m.halted = false) (hw : m.Holds w)
    (hf : w.family = 0x8) (hn : w.n.toNat ≤ 0x7 ∨ w.n.toNat = 0xE) :
    m.step.result = .ok () ∧
      m.step.machine = { m with pc := m.pc + 2, registers := m.step.machine.registers } ∧
      w.Computes m.dialect m.registers m.step.machine.registers := by
  have hlt : w.n.toNat < 16 := by
    rw [w.toNat_n]
    omega
  cases hop : AluOp.ofCode? w.n.toNat with
  | none =>
    have hnone := (AluOp.ofCode?_eq_none_iff hlt).mp hop
    omega
  | some op =>
    have hcode : w.n.toNat = op.code := AluOp.ofCode?_eq_some_iff.mp hop
    have hrow : (Instruction.alu op w.x w.y).Row w := ⟨hf, hcode, rfl, rfl⟩
    obtain ⟨hresult, hmachine⟩ := step_alu hh hw hrow
    rw [hmachine]
    exact ⟨hresult, rfl, computes_applyAlu hcode m.dialect m.registers⟩

/-- A machine about to subtract `V0` from `VF`, where that borrows. -/
def borrowIntoFlag : Machine :=
  { new .classic (.ofSeed 0) with
    memory := Memory.blank.overlay imageStart [0x8F, 0x05]
    registers := (Registers.blank.set .flag 5).set .offset 9 }

/-- The borrow is all that `VF` keeps of the difference. -/
theorem step_computes_into_flag :
    borrowIntoFlag.halted = false ∧ borrowIntoFlag.Holds 0x8F05 ∧ Word.family 0x8F05 = 0x8 ∧
      (Word.n 0x8F05).toNat ≤ 0x7 ∧ borrowIntoFlag.step.result = .ok () ∧
      borrowIntoFlag.step.machine.registers.get .flag = 0 := by
  have hw : borrowIntoFlag.Holds 0x8F05 := ⟨by decide, by decide +kernel⟩
  obtain ⟨hresult, -, hcomputes⟩ :=
    step_computes borrowIntoFlag 0x8F05 rfl hw (by decide) (.inl (by decide))
  have hflag := (hcomputes.aliased rfl 0 (by decide)).mp ⟨252, by decide, by decide⟩
  exact ⟨rfl, hw, by decide, by decide, hresult, UInt8.toNat_inj.mp hflag.symm⟩

end Machine

end Chip8
