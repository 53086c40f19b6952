import Chip8.Proofs.Ranges
import Chip8.Proofs.RoundTrip

/-!
# Registers to memory and back

`Fx55` stores `V0` to `Vx` in the cells from the index on and `Fx65` loads them from there. Both move as many
bytes, in the same order, so each undoes the other where the index is the same: a store puts down what a load
then finds (`Memory.bytes_overlay`, `Registers.get_overlay_upTo`), and a load leaves in the registers what a
store then puts back (`Registers.upTo_overlay`, `Memory.overlay_bytes`).

* `Word.execute`: executing a word through the opcode table.
* `execute_store`, `execute_load`: the two instructions where the cells are inside memory.
* `IndexMoved`: where they leave the index, which depends on the dialect.
* `transfers_inverse`: both orders, for every register, index and dialect.
-/
namespace Chip8

/-- Executes the instruction of a word. A word outside the opcode table stops as a fault. -/
def Word.execute (w : Word) : Action UInt16 := do
  let i ← Action.attempt w.decode
  i.execute

/-- The word of an instruction that meets no fault is executed, whatever the call stack if the instruction does
not look at it. -/
theorem Word.execute_encode {m : Machine} {i : Instruction} (hpc : m.pc.toNat ≤ 0xFFE)
    (hoperands : i.OperandsFit) (hc : i ≠ .sys 0x0E0) (hr : i ≠ .sys 0x0EE) (hstack : ¬ i.UsesStack)
    (hfault : i.fault? m = none) : i.encode.execute m = .ok (i.target m) (i.change m) := by
  have hword : m.pc.toNat + 2 ≤ memorySize := Nat.add_le_add_right hpc 2
  have hdecode : i.encode.decode = .ok i := decode_ok_iff_encode.mpr ⟨⟨hoperands, hc, hr⟩, rfl⟩
  unfold execute
  rw [hdecode]
  show i.execute m = _
  rw [Instruction.execute_eq hword i fun h => absurd h hstack, hfault]

/-! ## Bytes put down and read back -/

namespace Memory

variable (m : Memory) {address length : Nat}

/-- Memories that read alike are the same. -/
theorem ext_read {m m' : Memory} (h : ∀ a, m.read a = m'.read a) : m = m' := by
  have hcells : m.cells = m'.cells := by
    apply Vector.ext
    intro a ha
    have hsame := h a
    rw [m.read_of_lt ha, m'.read_of_lt ha] at hsame
    exact Except.ok.inj hsame
  cases m
  cases m'
  exact congrArg Memory.mk hcells

/-- The bytes of a range are those that its cells read as. -/
theorem bytes_eq_of_read (hfit : address + length ≤ memorySize) {bytes : List UInt8}
    (hlength : bytes.length = length)
    (h : ∀ k (hk : k < bytes.length), m.read (address + k) = .ok bytes[k]) :
    m.bytes address length = bytes := by
  refine List.ext_getElem ((m.length_bytes hfit).trans hlength.symm) fun k hk hk' => ?_
  exact Except.ok.inj ((m.read_bytes hfit hk).symm.trans (h k hk'))

theorem bytes_overlay (hfit : address + length ≤ memorySize) {bytes : List UInt8}
    (hlength : bytes.length = length) : (m.overlay address bytes).bytes address length = bytes :=
  bytes_eq_of_read _ hfit hlength fun _ hk => m.read_overlay_of_mem bytes hk (by omega)

theorem overlay_bytes (hfit : address + length ≤ memorySize) :
    m.overlay address (m.bytes address length) = m := by
  have hlength := m.length_bytes hfit
  refine ext_read fun a => ?_
  by_cases ha : address ≤ a ∧ a < address + length
  · obtain ⟨k, rfl⟩ := Nat.exists_eq_add_of_le ha.1
    have hk : k < (m.bytes address length).length := by omega
    rw [m.read_overlay_of_mem _ hk (by omega), m.read_bytes hfit hk]
  · exact m.read_overlay_of_not_mem _ (by omega)

end Memory

namespace Registers

variable (r : Registers)

/-- Register number `position + k` holds byte number `k`. -/
theorem get_overlay_of_mem (bytes : List UInt8) {position k : Nat} (hk : k < bytes.length)
    {j : Register} (hj : j.val = position + k) : (r.overlay position bytes).get j = bytes[k] := by
  induction bytes generalizing r position k with
  | nil => cases hk
  | cons b rest ih =>
    rw [overlay]
    cases k with
    | zero =>
      rw [get_overlay_of_le _ rest (.inl (by omega))]
      simp [get, hj]
    | succ k => exact ih _ (Nat.lt_of_succ_lt_succ hk) (by omega)

theorem getElem_upTo (x : Register) {k : Nat} (hk : k < (r.upTo x).length) {j : Register}
    (hj : j.val = k) : (r.upTo x)[k] = r.get j := by
  subst hj
  simp only [upTo, List.getElem_take, Vector.getElem_toList]
  rfl

/-- Over the bytes of `V0` to `Vx` these registers take them, and the others stay. -/
theorem get_overlay_upTo (s : Registers) (x j : Register) :
    (r.overlay 0 (s.upTo x)).get j = if j ≤ x then s.get j else r.get j := by
  have hlength := s.length_upTo x
  by_cases hj : j ≤ x
  · have hk : j.val < (s.upTo x).length := hlength ▸ Nat.lt_succ_of_le hj
    rw [if_pos hj, r.get_overlay_of_mem _ hk (Nat.zero_add _).symm, s.getElem_upTo x hk rfl]
  · have hpast : x.val < j.val := Fin.not_le.mp hj
    rw [if_neg hj, r.get_overlay_of_le _ (by omega)]

theorem upTo_overlay {bytes : List UInt8} {x : Register} (hlength : bytes.length = x.val + 1) :
    (r.overlay 0 bytes).upTo x = bytes := by
  refine List.ext_getElem (by rw [length_upTo, hlength]) fun k hk hk' => ?_
  have hlt : k < 16 := by omega
  rw [getElem_upTo _ x hk (j := ⟨k, hlt⟩) rfl]
  exact r.get_overlay_of_mem bytes hk' (Nat.zero_add _).symm

end Registers

namespace Machine

variable {m : Machine} {x : Register}

/-! ## The two instructions -/

/-- Where storing or loading a number of bytes leaves the index: past them, without wrapping, if the dialect
wants that, and otherwise where it was. -/
structure IndexMoved (count : Nat) (m m' : Machine) : Prop where
  past : m.dialect.advancesIndex = true →
    m'.index.toNat = m.index.toNat + count ∧ m'.index.toNat ≤ 4096
  kept : m.dialect.advancesIndex = false → m'.index = m.index

theorem indexMoved {m' : Machine} {count : Nat} (hfit : m.index.toNat + count ≤ 4096)
    (h : m'.index = m.movedIndex count) : IndexMoved count m m' where
  past hadvances := by
    have hcount : (UInt16.ofNat count).toNat = count := by
      rw [UInt16.toNat_ofNat']
      omega
    have hindex : m'.index.toNat = m.index.toNat + count := by
      rw [h, movedIndex, if_pos hadvances, UInt16.toNat_add, hcount]
      omega
    exact ⟨hindex, by omega⟩
  kept hstays := by
    rw [h, movedIndex, if_neg (by simp [hstays])]

/-- What `Fx55` leaves. -/
def stored (m : Machine) (x : Register) : Machine :=
  { m with memory := m.memory.overlay m.index.toNat (m.registers.upTo x), index := m.movedIndex (x.val + 1) }

/-- What `Fx65` leaves. -/
def loaded (m : Machine) (x : Register) : Machine :=
  { m with registers := m.registers.overlay 0 (m.memory.bytes m.index.toNat (x.val + 1)),
           index := m.movedIndex (x.val + 1) }

section

variable (hpc : m.pc.toNat ≤ 0xFFE) (hfit : m.index.toNat + x.val ≤ 4095)

include hpc hfit

theorem execute_store : (Word.ofByte 0xF x 0x55).execute m = .ok (m.pc + 2) (m.stored x) :=
  Word.execute_encode (i := .storeRegisters x) hpc trivial (by simp) (by simp) id
    (if_pos (Nat.succ_le_succ hfit))

theorem execute_load : (Word.ofByte 0xF x 0x65).execute m = .ok (m.pc + 2) (m.loaded x) :=
  Word.execute_encode (i := .loadRegisters x) hpc trivial (by simp) (by simp) id
    (if_pos (Nat.succ_le_succ hfit))

end

/-! ## One after the other -/

/-- Storing registers and loading them again, with the index back where it was, restores them from whatever
the registers have become, and the cells past them were never touched. Loading and then storing leaves memory
as it was. Either instruction is carried out, and moves the index as the dialect says. -/
theorem transfers_inverse (m : Machine) (x : Register) (hpc : m.pc.toNat ≤ 0xFFE)
    (hfit : m.index.toNat + x.val ≤ 4095) :
    (∃ next stored, (Word.ofByte 0xF x 0x55).execute m = .ok next stored ∧
      IndexMoved (x.val + 1) m stored ∧ stored.registers = m.registers ∧
      ∀ r : Registers, let changed := { stored with registers := r, index := m.index }
        ∃ next' loaded, (Word.ofByte 0xF x 0x65).execute changed = .ok next' loaded ∧
          IndexMoved (x.val + 1) changed loaded ∧
          (∀ j ≤ x, loaded.registers.get j = m.registers.get j) ∧
          (∀ j, x < j → loaded.registers.get j = r.get j) ∧
          ∀ a, a < m.index.toNat ∨ m.index.toNat + x.val < a →
            loaded.memory.read a = m.memory.read a) ∧
    ∃ next loaded, (Word.ofByte 0xF x 0x65).execute m = .ok next loaded ∧
      IndexMoved (x.val + 1) m loaded ∧
      let returned := { loaded with index := m.index }
      ∃ next' stored, (Word.ofByte 0xF x 0x55).execute returned = .ok next' stored ∧
        IndexMoved (x.val + 1) returned stored ∧ stored.memory = m.memory := by
  have hrange : m.index.toNat + (x.val + 1) ≤ 4096 := Nat.succ_le_succ hfit
  have hlength := m.registers.length_upTo x
  constructor
  -- what the load finds is what the store put down, whatever registers it finds it with
  · refine ⟨_, _, execute_store hpc hfit, indexMoved hrange rfl, rfl, fun r => ?_⟩
    refine ⟨_, _, execute_load hpc hfit, indexMoved hrange rfl, ?_⟩
    have hregisters (j : Register) :
        (r.overlay 0 ((m.memory.overlay m.index.toNat (m.registers.upTo x)).bytes m.index.toNat
          (x.val + 1))).get j = if j ≤ x then m.registers.get j else r.get j := by
      rw [m.memory.bytes_overlay hrange hlength, Registers.get_overlay_upTo]
    refine ⟨fun j hj => (hregisters j).trans (if_pos hj), fun j hj => ?_, fun a ha => ?_⟩
    · exact (hregisters j).trans (if_neg (Fin.not_le.mpr hj))
    · exact m.memory.read_overlay_of_not_mem _ (by omega)
  -- what the store puts back is what the load took from there
  · refine ⟨_, _, execute_load hpc hfit, indexMoved hrange rfl, ?_⟩
    refine ⟨_, _, execute_store hpc hfit, indexMoved hrange rfl, ?_⟩
    show m.memory.overlay m.index.toNat ((m.registers.overlay 0 _).upTo x) = m.memory
    rw [Registers.upTo_overlay _ (m.memory.length_bytes hrange), m.memory.overlay_bytes hrange]

/-- A machine about to move all registers to the last sixteen cells. -/
def atLastCells : Machine :=
  { new .classic (.ofSeed 0) with registers := Registers.blank.set .flag 7, index := 0xFF0 }

/-- The index goes to the first address past the end, and `VF` comes back after all registers were cleared. -/
theorem transfers_inverse_last_cells :
    atLastCells.pc.toNat ≤ 0xFFE ∧ atLastCells.index.toNat + Register.flag.val ≤ 4095 ∧
      ∃ next stored, (Word.ofByte 0xF .flag 0x55).execute atLastCells = .ok next stored ∧
        stored.index.toNat = 4096 ∧
        ∃ next' loaded, (Word.ofByte 0xF .flag 0x65).execute
            { stored with registers := .blank, index := atLastCells.index } = .ok next' loaded ∧
          loaded.registers.get .flag = 7 := by
  have hpc : atLastCells.pc.toNat ≤ 0xFFE := by decide
  have hfit : atLastCells.index.toNat + Register.flag.val ≤ 4095 := by decide
  obtain ⟨⟨next, stored, hstore, hmoved, -, hback⟩, -⟩ := transfers_inverse atLastCells .flag hpc hfit
  obtain ⟨next', loaded, hload, -, hregisters, -⟩ := hback .blank
  exact ⟨hpc, hfit, next, stored, hstore, (hmoved.past rfl).1, next', loaded, hload,
    hregisters .flag (Fin.le_refl _)⟩

end Machine
end Chip8
