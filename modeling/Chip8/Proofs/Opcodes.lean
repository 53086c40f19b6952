import Chip8.Instruction.Encoding

/-!
# The opcode table as a relation

`Word.decode` is a decision tree. `Instruction.Row` gives the same table row by row: what the fields
of a word must be for it to mean an instruction, with the operands that it then has.

* `decode_ok_iff`: a word decodes to an instruction exactly if it is in that instruction's row.
* `decode_error_iff`: a word that is in no row (`Word.Unknown`) is refused as itself.
-/
namespace Chip8

namespace Word

variable (w : Word)

theorem family_lt : w.family < 16 := by
  have := w.toNat_lt
  unfold family
  omega

theorem toNat_n : w.n.toNat = w.toNat % 16 := by
  unfold n
  rw [UInt8.toNat_ofNat']
  omega

theorem toNat_nnn : w.nnn.toNat = w.toNat % 4096 := by
  unfold nnn
  rw [UInt16.toNat_ofNat']
  omega

theorem n_eq_zero_iff : w.n = 0 ↔ w.n.toNat = 0 := by
  rw [← UInt8.toNat_inj, UInt8.toNat_zero]

/-- The last bytes that mean something in family `0xF`. -/
def miscBytes : List Nat := [0x07, 0x0A, 0x15, 0x18, 0x1E, 0x29, 0x33, 0x55, 0x65]

/-- The words that are in no row of the table. -/
def Unknown : Prop :=
  (w.family = 0x5 ∨ w.family = 0x9) ∧ w.n.toNat ≠ 0 ∨
  w.family = 0x8 ∧ (0x8 ≤ w.n.toNat ∧ w.n.toNat ≤ 0xD ∨ w.n.toNat = 0xF) ∨
  w.family = 0xE ∧ w.kk.toNat ≠ 0x9E ∧ w.kk.toNat ≠ 0xA1 ∨
  w.family = 0xF ∧ w.kk.toNat ∉ miscBytes

end Word

/-- The row of an instruction: the words that mean it. -/
def Instruction.Row (w : Word) : Instruction → Prop
  | clearScreen => w = 0x00E0
  | ret => w = 0x00EE
  | sys address => w.family = 0x0 ∧ w ≠ 0x00E0 ∧ w ≠ 0x00EE ∧ address = w.nnn
  | jump address => w.family = 0x1 ∧ address = w.nnn
  | call address => w.family = 0x2 ∧ address = w.nnn
  | skipConst x value negated => w.family = (if negated then 0x4 else 0x3) ∧ x = w.x ∧ value = w.kk
  | skipSame x y negated =>
    w.family = (if negated then 0x9 else 0x5) ∧ w.n.toNat = 0 ∧ x = w.x ∧ y = w.y
  | put x value => w.family = 0x6 ∧ x = w.x ∧ value = w.kk
  | addConst x value => w.family = 0x7 ∧ x = w.x ∧ value = w.kk
  | alu op x y => w.family = 0x8 ∧ w.n.toNat = op.code ∧ x = w.x ∧ y = w.y
  | setIndex address => w.family = 0xA ∧ address = w.nnn
  | jumpOffset address => w.family = 0xB ∧ address = w.nnn
  | random x mask => w.family = 0xC ∧ x = w.x ∧ mask = w.kk
  | draw x y rows => w.family = 0xD ∧ x = w.x ∧ y = w.y ∧ rows = w.n
  | skipKey x negated => w.family = 0xE ∧ w.kk.toNat = (if negated then 0xA1 else 0x9E) ∧ x = w.x
  | readDelay x => w.family = 0xF ∧ w.kk.toNat = 0x07 ∧ x = w.x
  | awaitKey x => w.family = 0xF ∧ w.kk.toNat = 0x0A ∧ x = w.x
  | setDelay x => w.family = 0xF ∧ w.kk.toNat = 0x15 ∧ x = w.x
  | setSound x => w.family = 0xF ∧ w.kk.toNat = 0x18 ∧ x = w.x
  | addIndex x => w.family = 0xF ∧ w.kk.toNat = 0x1E ∧ x = w.x
  | pointGlyph x => w.family = 0xF ∧ w.kk.toNat = 0x29 ∧ x = w.x
  | storeDecimal x => w.family = 0xF ∧ w.kk.toNat = 0x33 ∧ x = w.x
  | storeRegisters x => w.family = 0xF ∧ w.kk.toNat = 0x55 ∧ x = w.x
  | loadRegisters x => w.family = 0xF ∧ w.kk.toNat = 0x65 ∧ x = w.x

theorem AluOp.ofCode?_eq_some_iff {c : Nat} {op : AluOp} : ofCode? c = some op ↔ c = op.code := by
  constructor
  · intro h
    unfold ofCode? at h
    split at h <;> cases h <;> rfl
  · rintro rfl
    cases op <;> rfl

theorem AluOp.ofCode?_eq_none_iff {c : Nat} (h : c < 16) :
    ofCode? c = none ↔ 0x8 ≤ c ∧ c ≤ 0xD ∨ c = 0xF := by
  have key : ∀ c : Fin 16, ofCode? c.val = none ↔ 0x8 ≤ c.val ∧ c.val ≤ 0xD ∨ c.val = 0xF := by
    decide
  exact key ⟨c, h⟩

namespace Word

variable {w : Word} {i : Instruction}

theorem row_of_decode? (h : w.decode? = some i) : i.Row w := by
  unfold decode? at h
  split at h
  all_goals rename_i hf
  · split at h
    · rename_i hw; cases h; exact hw
    · split at h
      · rename_i hw; cases h; exact hw
      · rename_i hc hr; cases h; exact ⟨hf, hc, hr, rfl⟩
  · cases h; exact ⟨hf, rfl⟩
  · cases h; exact ⟨hf, rfl⟩
  · cases h; exact ⟨hf, rfl, rfl⟩
  · cases h; exact ⟨hf, rfl, rfl⟩
  · split at h
    · rename_i hn; cases h; exact ⟨hf, w.n_eq_zero_iff.mp hn, rfl, rfl⟩
    · cases h
  · cases h; exact ⟨hf, rfl, rfl⟩
  · cases h; exact ⟨hf, rfl, rfl⟩
  · obtain ⟨op, hop, rfl⟩ := Option.map_eq_some_iff.mp h
    exact ⟨hf, AluOp.ofCode?_eq_some_iff.mp hop, rfl, rfl⟩
  · split at h
    · rename_i hn; cases h; exact ⟨hf, w.n_eq_zero_iff.mp hn, rfl, rfl⟩
    · cases h
  · cases h; exact ⟨hf, rfl⟩
  · cases h; exact ⟨hf, rfl⟩
  · cases h; exact ⟨hf, rfl, rfl⟩
  · cases h; exact ⟨hf, rfl, rfl, rfl⟩
  · unfold decodeKey? at h
    split at h <;> cases h <;> exact ⟨hf, ‹_›, rfl⟩
  · have hF : w.family = 0xF := by
      have := w.family_lt
      simp only [imp_false] at *
      omega
    unfold decodeMisc? at h
    split at h <;> cases h <;> exact ⟨hF, ‹_›, rfl⟩

theorem decode?_of_row (h : i.Row w) : w.decode? = some i := by
  cases i with
  | clearScreen => subst h; rfl
  | ret => subst h; rfl
  | sys address =>
    obtain ⟨hf, hc, hr, rfl⟩ := h
    simp only [decode?, hf, hc, hr, if_false]
  | jump address => obtain ⟨hf, rfl⟩ := h; simp only [decode?, hf]
  | call address => obtain ⟨hf, rfl⟩ := h; simp only [decode?, hf]
  | skipConst x value negated =>
    obtain ⟨hf, rfl, rfl⟩ := h
    cases negated <;> simp [decode?, hf]
  | skipSame x y negated =>
    obtain ⟨hf, hn, rfl, rfl⟩ := h
    have hn := w.n_eq_zero_iff.mpr hn
    cases negated <;> simp [decode?, hf, hn]
  | put x value => obtain ⟨hf, rfl, rfl⟩ := h; simp only [decode?, hf]
  | addConst x value => obtain ⟨hf, rfl, rfl⟩ := h; simp only [decode?, hf]
  | alu op x y =>
    obtain ⟨hf, hn, rfl, rfl⟩ := h
    simp only [decode?, hf, AluOp.ofCode?_eq_some_iff.mpr hn, Option.map_some]
  | setIndex address => obtain ⟨hf, rfl⟩ := h; simp only [decode?, hf]
  | jumpOffset address => obtain ⟨hf, rfl⟩ := h; simp only [decode?, hf]
  | random x mask => obtain ⟨hf, rfl, rfl⟩ := h; simp only [decode?, hf]
  | draw x y rows => obtain ⟨hf, rfl, rfl, rfl⟩ := h; simp only [decode?, hf]
  | skipKey x negated =>
    obtain ⟨hf, hk, rfl⟩ := h
    cases negated <;> simp [decode?, decodeKey?, hf, hk]
  | _ => obtain ⟨hf, hk, rfl⟩ := h; simp only [decode?, decodeMisc?, hf, hk]

/-- A word decodes to an instruction exactly if it is in its row. -/
theorem decode_ok_iff : w.decode = .ok i ↔ i.Row w := by
  have h : w.decode = .ok i ↔ w.decode? = some i := by
    unfold decode
    cases w.decode? <;> simp
  exact h.trans ⟨row_of_decode?, decode?_of_row⟩

theorem decodeKey?_eq_none_iff :
    w.decodeKey? = none ↔ w.kk.toNat ≠ 0x9E ∧ w.kk.toNat ≠ 0xA1 := by
  unfold decodeKey?
  split <;> simp_all

theorem decodeMisc?_eq_none_iff : w.decodeMisc? = none ↔ w.kk.toNat ∉ miscBytes := by
  unfold decodeMisc? miscBytes
  split <;> simp_all

theorem decode?_eq_none_iff : w.decode? = none ↔ w.Unknown := by
  have hn : w.n.toNat < 16 := by rw [toNat_n]; omega
  unfold decode? Unknown
  split
  all_goals rename_i hf
  · simp only [hf, apply_ite (· = (none : Option Instruction))]
    simp
  · simp [hf]
  · simp [hf]
  · simp [hf]
  · simp [hf]
  · simp [hf, n_eq_zero_iff]
  · simp [hf]
  · simp [hf]
  · simp [hf, AluOp.ofCode?_eq_none_iff hn]
  · simp [hf, n_eq_zero_iff]
  · simp [hf]
  · simp [hf]
  · simp [hf]
  · simp [hf]
  · simp [hf, decodeKey?_eq_none_iff]
  · have hF : w.family = 0xF := by
      have := w.family_lt
      simp only [imp_false] at *
      omega
    simp [hF, decodeMisc?_eq_none_iff]

/-- A word is refused exactly if it is in no row, and as itself. -/
theorem decode_error_iff {f : Fault} : w.decode = .error f ↔ w.Unknown ∧ f = .unknownOpcode w := by
  rw [← decode?_eq_none_iff]
  unfold decode
  cases w.decode? <;> simp [eq_comm]

end Word
end Chip8
