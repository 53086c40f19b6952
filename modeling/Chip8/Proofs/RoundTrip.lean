import Chip8.Proofs.Opcodes

/-!
# Words and instructions

Decoding and encoding are inverse to each other. A word is its family and what is below it, and there is one
equation for each of the three ways in which the twelve bits below are divided (`address_iff`, `byte_iff`,
`nibble_iff`). Read through them, a row of the opcode table is an equation about the encoded instruction.

* `row_iff`: a word is in the row of an instruction exactly if it is its encoding, and the instruction is one
  that a word can carry.
* `decodeByLookup_eq`: decoding with each register looked up by its number is decoding; no lookup fails.
* `decode_encode_inverse`: both directions, the words that are refused, and the lookups.
-/
namespace Chip8

/-- The operands of an instruction are not wider than the fields of a word. -/
def Instruction.OperandsFit : Instruction → Prop
  | sys address => address.toNat ≤ 0xFFF
  | jump address => address.toNat ≤ 0xFFF
  | call address => address.toNat ≤ 0xFFF
  | setIndex address => address.toNat ≤ 0xFFF
  | jumpOffset address => address.toNat ≤ 0xFFF
  | draw _ _ rows => rows.toNat ≤ 15
  | _ => True

namespace Word

/-! ## The fields of a word -/

variable {w : Word} {x y : Register} {family low : Nat}

theorem toNat_kk (w : Word) : w.kk.toNat = w.toNat % 256 := by
  unfold kk
  rw [UInt8.toNat_ofNat']
  omega

theorem eq_kk_iff {value : UInt8} : value = w.kk ↔ w.kk.toNat = value.toNat := by
  rw [← UInt8.toNat_inj, eq_comm]

theorem address_iff (hf : family < 16) {address : UInt16} :
    w.family = family ∧ address = w.nnn ↔ address.toNat ≤ 0xFFF ∧ ofAddress family address = w := by
  have := w.toNat_lt
  rw [← UInt16.toNat_inj, ← UInt16.toNat_inj, toNat_nnn, ofAddress, UInt16.toNat_ofNat']
  simp only [Word.family]
  omega

theorem byte_iff (hf : family < 16) (hl : low < 256) :
    w.family = family ∧ w.kk.toNat = low ∧ x = w.x ↔ ofByte family x low = w := by
  have := w.toNat_lt
  have := x.isLt
  rw [← UInt16.toNat_inj, toNat_kk, ofByte, UInt16.toNat_ofNat', Fin.ext_iff]
  simp only [Word.family, Word.x]
  omega

theorem nibble_iff (hf : family < 16) (hl : low < 16) :
    w.family = family ∧ w.n.toNat = low ∧ x = w.x ∧ y = w.y ↔ ofNibble family x y low = w := by
  have := w.toNat_lt
  have := x.isLt
  have := y.isLt
  rw [← UInt16.toNat_inj, toNat_n, ofNibble, UInt16.toNat_ofNat', Fin.ext_iff, Fin.ext_iff]
  simp only [Word.family, Word.x, Word.y]
  omega

/-! ## The rows of the table -/

variable {i : Instruction}

theorem sys_iff {address : UInt16} :
    (Instruction.sys address).Row w ↔
      (address.toNat ≤ 0xFFF ∧ address ≠ 0x0E0 ∧ address ≠ 0x0EE) ∧ ofAddress 0x0 address = w := by
  -- in family zero a word is its address
  have hword (h : w.family = 0x0 ∧ address = w.nnn) : address = w := by
    rw [h.2, ← UInt16.toNat_inj, toNat_nnn]
    have := h.1
    simp only [Word.family] at this
    omega
  have haddress : w.family = 0x0 ∧ address = w.nnn ↔ address.toNat ≤ 0xFFF ∧ ofAddress 0x0 address = w :=
    address_iff (by decide)
  constructor
  · rintro ⟨hf, hc, hr, ha⟩
    have hw := hword ⟨hf, ha⟩
    obtain ⟨hfit, he⟩ := haddress.mp ⟨hf, ha⟩
    exact ⟨⟨hfit, hw ▸ hc, hw ▸ hr⟩, he⟩
  · rintro ⟨⟨hfit, hc, hr⟩, he⟩
    obtain ⟨hf, ha⟩ := haddress.mpr ⟨hfit, he⟩
    have hw := hword ⟨hf, ha⟩
    exact ⟨hf, hw ▸ hc, hw ▸ hr, ha⟩

/-- A word is in the row of an instruction exactly if it is its encoding, where operands fit and the word does
not mean anything else. -/
theorem row_iff :
    i.Row w ↔ (i.OperandsFit ∧ i ≠ .sys 0x0E0 ∧ i ≠ .sys 0x0EE) ∧ i.encode = w := by
  cases i with
  | sys address => simpa [Instruction.OperandsFit, Instruction.encode] using sys_iff
  | clearScreen => simp [Instruction.Row, Instruction.OperandsFit, Instruction.encode, eq_comm]
  | ret => simp [Instruction.Row, Instruction.OperandsFit, Instruction.encode, eq_comm]
  | jump address | call address | setIndex address | jumpOffset address =>
    simpa [Instruction.Row, Instruction.OperandsFit, Instruction.encode] using address_iff (by decide)
  | skipConst x value negated =>
    have hlt := value.toNat_lt
    cases negated <;>
      simpa [Instruction.Row, Instruction.OperandsFit, Instruction.encode, eq_kk_iff, and_comm (a := x = w.x)]
        using byte_iff (by decide) hlt
  | put x value | addConst x value | random x value =>
    have hlt := value.toNat_lt
    simpa [Instruction.Row, Instruction.OperandsFit, Instruction.encode, eq_kk_iff, and_comm (a := x = w.x)]
      using byte_iff (by decide) hlt
  | skipSame x y negated =>
    cases negated <;>
      simpa [Instruction.Row, Instruction.OperandsFit, Instruction.encode]
        using nibble_iff (by decide) (by decide)
  | alu op x y =>
    have hlt : op.code < 16 := by cases op <;> decide
    simpa [Instruction.Row, Instruction.OperandsFit, Instruction.encode] using nibble_iff (by decide) hlt
  | draw x y rows =>
    have hrows : rows = w.n ↔ rows.toNat ≤ 15 ∧ w.n.toNat = rows.toNat % 16 := by
      rw [← UInt8.toNat_inj, toNat_n]
      omega
    have hword : w.family = 0xD ∧ w.n.toNat = rows.toNat % 16 ∧ x = w.x ∧ y = w.y ↔
        ofNibble 0xD x y (rows.toNat % 16) = w := nibble_iff (by decide) (by omega)
    constructor
    · rintro ⟨hf, hx, hy, hr⟩
      obtain ⟨hfit, hn⟩ := hrows.mp hr
      exact ⟨⟨hfit, by simp⟩, hword.mp ⟨hf, hn, hx, hy⟩⟩
    · rintro ⟨⟨hfit, -⟩, he⟩
      obtain ⟨hf, hn, hx, hy⟩ := hword.mpr he
      exact ⟨hf, hx, hy, hrows.mpr ⟨hfit, hn⟩⟩
  | skipKey x negated =>
    cases negated <;>
      simpa [Instruction.Row, Instruction.OperandsFit, Instruction.encode] using byte_iff (by decide) (by decide)
  | _ =>
    simpa [Instruction.Row, Instruction.OperandsFit, Instruction.encode] using byte_iff (by decide) (by decide)

/-- A word decodes to an instruction exactly if it is its encoding, where operands fit and the word does not
mean anything else. -/
theorem decode_ok_iff_encode :
    w.decode = .ok i ↔ (i.OperandsFit ∧ i ≠ .sys 0x0E0 ∧ i ≠ .sys 0x0EE) ∧ i.encode = w :=
  decode_ok_iff.trans row_iff

/-! ## Registers by number -/

/-- The register that a number names. There is no fault for a number that names none. -/
def lookup (number : Nat) : Except (Option Fault) Register :=
  match Register.ofInt? number with
  | some r => .ok r
  | none => .error none

/-- The register that the second nibble names. -/
def lookupX (w : Word) : Except (Option Fault) Register := lookup ((w &&& 0x0F00) >>> 8).toNat

/-- The register that the third nibble names. -/
def lookupY (w : Word) : Except (Option Fault) Register := lookup ((w &&& 0x00F0) >>> 4).toNat

/-- `decode` with the registers looked up by their numbers, before anything else of their row. -/
def decodeByLookup (w : Word) : Except (Option Fault) Instruction :=
  let unknown := .error (some (.unknownOpcode w))
  match w.family with
  | 0x0 => if w = 0x00E0 then .ok .clearScreen else if w = 0x00EE then .ok .ret else .ok (.sys w.nnn)
  | 0x1 => .ok (.jump w.nnn)
  | 0x2 => .ok (.call w.nnn)
  | 0x3 => return .skipConst (← w.lookupX) w.kk false
  | 0x4 => return .skipConst (← w.lookupX) w.kk true
  | 0x5 => if w.n = 0 then return .skipSame (← w.lookupX) (← w.lookupY) false else unknown
  | 0x6 => return .put (← w.lookupX) w.kk
  | 0x7 => return .addConst (← w.lookupX) w.kk
  | 0x8 => do
    let x ← w.lookupX
    let y ← w.lookupY
    match AluOp.ofCode? w.n.toNat with
    | some op => return .alu op x y
    | none => unknown
  | 0x9 => if w.n = 0 then return .skipSame (← w.lookupX) (← w.lookupY) true else unknown
  | 0xA => .ok (.setIndex w.nnn)
  | 0xB => .ok (.jumpOffset w.nnn)
  | 0xC => return .random (← w.lookupX) w.kk
  | 0xD => return .draw (← w.lookupX) (← w.lookupY) w.n
  | 0xE => match w.kk.toNat with
    | 0x9E => return .skipKey (← w.lookupX) false
    | 0xA1 => return .skipKey (← w.lookupX) true
    | _ => unknown
  | _ => do
    let x ← w.lookupX
    match w.kk.toNat with
    | 0x07 => return .readDelay x
    | 0x0A => return .awaitKey x
    | 0x15 => return .setDelay x
    | 0x18 => return .setSound x
    | 0x1E => return .addIndex x
    | 0x29 => return .pointGlyph x
    | 0x33 => return .storeDecimal x
    | 0x55 => return .storeRegisters x
    | 0x65 => return .loadRegisters x
    | _ => unknown

theorem lookup_eq {number : Nat} {r : Register} (h : number = r.val) : lookup number = .ok r := by
  have hr : (0 : Int) ≤ r.val ∧ (r.val : Int) < 16 := by omega
  unfold lookup Register.ofInt?
  simp [h, hr]

/-- A field of four bits, taken out by mask and shift. -/
theorem nibble_at (n k : Nat) : (n &&& 0xF <<< k) >>> k = (n >>> k) % 16 := by
  rw [Nat.shiftRight_and_distrib, Nat.shiftLeft_shiftRight]
  exact Nat.and_two_pow_sub_one_eq_mod (n >>> k) 4

theorem lookupX_eq (w : Word) : w.lookupX = .ok w.x := by
  refine lookup_eq ?_
  rw [UInt16.toNat_shiftRight, UInt16.toNat_and]
  exact (nibble_at w.toNat 8).trans (by rw [Nat.shiftRight_eq_div_pow]; rfl)

theorem lookupY_eq (w : Word) : w.lookupY = .ok w.y := by
  refine lookup_eq ?_
  rw [UInt16.toNat_shiftRight, UInt16.toNat_and]
  exact (nibble_at w.toNat 4).trans (by rw [Nat.shiftRight_eq_div_pow]; rfl)

/-- An instruction, or the fault of a word that is none. -/
def orUnknown (w : Word) : Option Instruction → Except (Option Fault) Instruction
  | some i => .ok i
  | none => .error (some (.unknownOpcode w))

/-- No lookup fails. -/
theorem decodeByLookup_eq (w : Word) :
    w.decodeByLookup = match w.decode with
      | .ok i => .ok i
      | .error f => .error (some f) := by
  have hdecode : (match w.decode with
      | .ok i => .ok i
      | .error f => .error (some f)) = orUnknown w w.decode? := by
    unfold decode
    cases w.decode? <;> rfl
  rw [hdecode]
  unfold decodeByLookup decode?
  simp only [lookupX_eq, lookupY_eq]
  have hlt := w.family_lt
  generalize w.family = family at hlt ⊢
  split
  case h_1 =>
    by_cases hc : w = 0x00E0 <;> by_cases hr : w = 0x00EE <;> simp only [hc, hr, if_true, if_false] <;> rfl
  case h_6 => by_cases hn : w.n = 0 <;> simp only [hn, if_true, if_false] <;> rfl
  case h_9 => cases AluOp.ofCode? w.n.toNat <;> rfl
  case h_10 => by_cases hn : w.n = 0 <;> simp only [hn, if_true, if_false] <;> rfl
  case h_15 =>
    change _ = orUnknown w w.decodeKey?
    unfold decodeKey?
    generalize w.kk.toNat = code
    by_cases hknown : code = 0x9E ∨ code = 0xA1
    · rcases hknown with rfl | rfl <;> rfl
    · simp only [not_or] at hknown
      simp [hknown, orUnknown]
  case h_16 =>
    have hlast : family = 15 := by
      simp only [imp_false] at *
      omega
    subst hlast
    change _ = orUnknown w w.decodeMisc?
    unfold decodeMisc?
    generalize w.kk.toNat = code
    by_cases hknown : code = 0x07 ∨ code = 0x0A ∨ code = 0x15 ∨ code = 0x18 ∨ code = 0x1E ∨ code = 0x29 ∨
      code = 0x33 ∨ code = 0x55 ∨ code = 0x65
    · rcases hknown with rfl | rfl | rfl | rfl | rfl | rfl | rfl | rfl | rfl <;> rfl
    · simp only [not_or] at hknown
      simp [hknown, orUnknown, bind, Except.bind]
  all_goals rfl

/-! ## The whole format -/

/-- Encoding undoes decoding, which is therefore injective, and decoding undoes encoding where the operands fit,
the two addresses apart whose words mean something else. Decoding fails on the words outside the table only, with
the word itself, and no lookup of a register fails on the way. -/
theorem decode_encode_inverse :
    (∀ w i, decode w = .ok i → i.encode = w) ∧
      (∀ w w' i, decode w = .ok i → decode w' = .ok i → w = w') ∧
      (∀ i : Instruction, i.OperandsFit → i ≠ .sys 0x0E0 → i ≠ .sys 0x0EE → i.encode.decode = .ok i) ∧
      (∀ w f, decode w = .error f ↔ w.Unknown ∧ f = .unknownOpcode w) ∧
      ∀ w, decodeByLookup w = match decode w with
        | .ok i => .ok i
        | .error f => .error (some f) := by
  have hencode (w : Word) (i : Instruction) (h : w.decode = .ok i) : i.encode = w :=
    (decode_ok_iff_encode.mp h).2
  refine ⟨hencode, ?_, ?_, fun w f => decode_error_iff, decodeByLookup_eq⟩
  · intro w w' i h h'
    rw [← hencode w i h, hencode w' i h']
  · intro i hfit hc hr
    exact decode_ok_iff_encode.mpr ⟨⟨hfit, hc, hr⟩, rfl⟩

/-- The highest sprite, drawn at registers that are not the same. -/
theorem decode_encode_inverse_draw :
    decode 0xD12F = .ok (.draw 1 2 15) ∧ (Instruction.draw 1 2 15).encode = 0xD12F ∧
      (Instruction.draw 1 2 15).OperandsFit ∧ Instruction.draw 1 2 15 ≠ .sys 0x0E0 ∧
      Instruction.draw 1 2 15 ≠ .sys 0x0EE ∧
      (Instruction.draw 1 2 15).encode.decode = .ok (.draw 1 2 15) := by
  obtain ⟨hencode, -, hdecode, -⟩ := decode_encode_inverse
  have hword : decode 0xD12F = .ok (.draw 1 2 15) := rfl
  have hfit : (Instruction.draw 1 2 15).OperandsFit := Nat.le_refl 15
  exact ⟨hword, hencode _ _ hword, hfit, by decide, by decide, hdecode _ hfit (by decide) (by decide)⟩

end Word
end Chip8
