import Chip8.Proofs.Diagnostics
import Chip8.Proofs.RoundTrip

/-!
# Reading assembly back

A line of assembly is a mnemonic and up to three operands. Eleven instructions are called `LD`, and only their
operands tell them apart: `F` is not `VF`, `B` is not `VB`, and of two constants the one with two digits is the byte.
So the proof that no two instructions have the same line is a reader: it finds the words of a line, the operand of
each word, and the instruction of a mnemonic with its operands.

* `Operand.ofText?_text`, `Instruction.ofParts?_parts`, `Instruction.words_assembly`: the three parts of the reader.
* `Instruction.ofAssembly?_assembly`: a line of assembly is read as the instruction it was written for.
* `Machine.trace_mem_records`, `Machine.traceLine_inj`: what a trace line is made of, and what it tells.
* `disassembly_unambiguous`: a line tells its instruction, its word, and, if it is a trace line, where the word was.
-/
namespace Chip8

/-- Neither a comma nor a blank. -/
def Plain (cs : List Char) : Prop := ∀ c ∈ cs, c ≠ ',' ∧ c ≠ ' '

-- Character by character of the list: to go through all characters there are would take too long.
instance (cs : List Char) : Decidable (Plain cs) := List.decidableBAll _ cs

theorem Plain.filter_comma {cs : List Char} (h : Plain cs) : cs.filter (· ≠ ',') = cs :=
  List.filter_eq_self.mpr fun c hc => decide_eq_true (h c hc).1

theorem Plain.blank_not_mem {cs : List Char} (h : Plain cs) : ' ' ∉ cs := fun hc => (h ' ' hc).2 rfl

/-! ## Operands -/

/-- What an operand can name that is not a general register. -/
inductive Place where
  | index
  | delay
  | sound
  | key
  | glyph
  | decimal
  /-- The cells from the index on. -/
  | cells
  deriving DecidableEq

def Place.text : Place → List Char
  | index => ['I']
  | delay => ['D', 'T']
  | sound => ['S', 'T']
  | key => ['K']
  | glyph => ['F']
  | decimal => ['B']
  | cells => ['[', 'I', ']']

/-- What stands at one place of a line of assembly. -/
inductive Operand where
  | register (r : Register)
  | address (a : UInt16)
  | byte (b : UInt8)
  | rows (n : UInt8)
  | place (p : Place)
  deriving DecidableEq

namespace Operand

def text : Operand → List Char
  | register r => 'V' :: (Nat.toDigits 16 r.val).map Char.toUpper
  | address a => '0' :: 'x' :: Text.hexDigits 3 a.toNat
  | byte b => '0' :: 'x' :: Text.hexDigits 2 b.toNat
  | rows n => Nat.toDigits 10 n.toNat
  | place p => p.text

/-- The operand that a text stands for, told by how it begins and, of constants, by the number of digits. -/
def ofText? : List Char → Option Operand
  | ['I'] => some (.place .index)
  | ['D', 'T'] => some (.place .delay)
  | ['S', 'T'] => some (.place .sound)
  | ['K'] => some (.place .key)
  | ['F'] => some (.place .glyph)
  | ['B'] => some (.place .decimal)
  | ['[', 'I', ']'] => some (.place .cells)
  | 'V' :: digits => (Text.digitsValue? 16 0 digits).bind fun n => (Register.ofInt? n).map .register
  | '0' :: 'x' :: digits => (Text.digitsValue? 16 0 digits).map fun n =>
    if digits.length = 2 then .byte (UInt8.ofNat n) else .address (UInt16.ofNat n)
  | digits => (Text.digitsValue? 10 0 digits).map fun n => .rows (UInt8.ofNat n)

/-- A text of decimal digits begins like no other operand. -/
theorem ofText?_of_isDigit {cs : List Char} (h : ∀ c ∈ cs, c.isDigit = true) :
    ofText? cs = (Text.digitsValue? 10 0 cs).map fun n => .rows (UInt8.ofNat n) := by
  unfold ofText?
  split <;> simp_all

theorem ofText?_text (o : Operand) : ofText? o.text = some o := by
  cases o with
  | register r =>
    have hregister : ∀ r : Register, ofText? (register r).text = some (.register r) := by decide
    exact hregister r
  | address a =>
    have hlength : (Text.hexDigits 3 a.toNat).length ≠ 2 := by
      rw [Text.length_hexDigits]
      omega
    rw [text, ofText?, Text.digitsValue?_hexDigits, Option.map_some, if_neg hlength, UInt16.ofNat_toNat]
  | byte b =>
    have hlength : (Text.hexDigits 2 b.toNat).length = 2 := Text.length_hexDigits_of_lt (by decide) b.toNat_lt
    rw [text, ofText?, Text.digitsValue?_hexDigits, Option.map_some, if_pos hlength, UInt8.ofNat_toNat]
  | rows n =>
    have hdigits : ∀ c ∈ Nat.toDigits 10 n.toNat, c.isDigit = true := fun c hc =>
      Nat.isDigit_of_mem_toDigits (by decide) (by decide) hc
    rw [text, ofText?_of_isDigit hdigits, Text.digitsValue?_toDigits (by decide) (by decide), Option.map_some,
      UInt8.ofNat_toNat]
  | place p => cases p <;> rfl

theorem plain_text (o : Operand) : Plain o.text := by
  have hdigit : ∀ d < 16, Nat.digitChar d ≠ ',' ∧ Nat.digitChar d ≠ ' ' := by decide
  have hconstant (width n : Nat) : Plain ('0' :: 'x' :: Text.hexDigits width n) := by
    refine List.forall_mem_cons.mpr ⟨by decide, List.forall_mem_cons.mpr ⟨by decide, fun c hc => ?_⟩⟩
    obtain ⟨d, hd, rfl⟩ := Text.exists_of_mem_hexDigits hc
    exact hdigit d hd
  cases o with
  | register r =>
    have hregister : ∀ r : Register, Plain (register r).text := by decide
    exact hregister r
  | address a => exact hconstant 3 a.toNat
  | byte b => exact hconstant 2 b.toNat
  | rows n =>
    intro c hc
    obtain ⟨d, hd, rfl⟩ := Text.exists_of_mem_toDigits (by decide) hc
    exact hdigit d (by omega)
  | place p => cases p <;> decide

/-- Operands as they follow the mnemonic. -/
def listing : List Operand → List Char
  | [] => []
  | o :: rest => ' ' :: o.text ++ rest.flatMap fun o => ',' :: ' ' :: o.text

theorem filter_listing (ops : List Operand) :
    (listing ops).filter (· ≠ ',') = ops.flatMap fun o => ' ' :: o.text := by
  have hfirst (o : Operand) : (' ' :: o.text).filter (· ≠ ',') = ' ' :: o.text :=
    congrArg (' ' :: ·) o.plain_text.filter_comma
  have hnext (o : Operand) : (',' :: ' ' :: o.text).filter (· ≠ ',') = ' ' :: o.text := hfirst o
  cases ops with
  | nil => rfl
  | cons o rest =>
    rw [listing, List.filter_append, hfirst, List.filter_flatMap, List.flatMap_cons]
    simp only [hnext]

end Operand

/-! ## Instructions -/

/-- The operation with a given mnemonic. -/
def AluOp.ofMnemonic? : String → Option AluOp
  | "LD" => some copy
  | "OR" => some or
  | "AND" => some and
  | "XOR" => some xor
  | "ADD" => some add
  | "SUB" => some subtract
  | "SHR" => some shiftRight
  | "SUBN" => some subtractFrom
  | "SHL" => some shiftLeft
  | _ => none

namespace Instruction

def mnemonic : Instruction → String
  | clearScreen => "CLS"
  | ret => "RET"
  | sys _ => "SYS"
  | jump _ | jumpOffset _ => "JP"
  | call _ => "CALL"
  | skipConst _ _ negated | skipSame _ _ negated => if negated then "SNE" else "SE"
  | addConst _ _ | addIndex _ => "ADD"
  | alu op _ _ => op.mnemonic
  | random _ _ => "RND"
  | draw _ _ _ => "DRW"
  | skipKey _ negated => if negated then "SKNP" else "SKP"
  | _ => "LD"

open Operand in
def operands : Instruction → List Operand
  | clearScreen | ret => []
  | sys a | jump a | call a => [address a]
  | skipConst x value _ | put x value | addConst x value | random x value => [register x, byte value]
  | skipSame x y _ | alu _ x y => [register x, register y]
  | setIndex a => [place .index, address a]
  | jumpOffset a => [register .offset, address a]
  | draw x y n => [register x, register y, rows n]
  | skipKey x _ => [register x]
  | readDelay x => [register x, place .delay]
  | awaitKey x => [register x, place .key]
  | setDelay x => [place .delay, register x]
  | setSound x => [place .sound, register x]
  | addIndex x => [place .index, register x]
  | pointGlyph x => [place .glyph, register x]
  | storeDecimal x => [place .decimal, register x]
  | storeRegisters x => [place .cells, register x]
  | loadRegisters x => [register x, place .cells]

open Operand in
/-- The instruction of a mnemonic with its operands. -/
def ofParts? : String → List Operand → Option Instruction
  | "CLS", [] => some clearScreen
  | "RET", [] => some ret
  | "SYS", [address a] => some (sys a)
  | "JP", [address a] => some (jump a)
  | "JP", [register _, address a] => some (jumpOffset a)
  | "CALL", [address a] => some (call a)
  | "SE", [register x, byte value] => some (skipConst x value false)
  | "SE", [register x, register y] => some (skipSame x y false)
  | "SNE", [register x, byte value] => some (skipConst x value true)
  | "SNE", [register x, register y] => some (skipSame x y true)
  | "SKP", [register x] => some (skipKey x false)
  | "SKNP", [register x] => some (skipKey x true)
  | "ADD", [register x, byte value] => some (addConst x value)
  | "ADD", [place .index, register x] => some (addIndex x)
  | "RND", [register x, byte mask] => some (random x mask)
  | "DRW", [register x, register y, rows n] => some (draw x y n)
  | "LD", [register x, byte value] => some (put x value)
  | "LD", [place .index, address a] => some (setIndex a)
  | "LD", [register x, place .delay] => some (readDelay x)
  | "LD", [register x, place .key] => some (awaitKey x)
  | "LD", [register x, place .cells] => some (loadRegisters x)
  | "LD", [place .delay, register x] => some (setDelay x)
  | "LD", [place .sound, register x] => some (setSound x)
  | "LD", [place .glyph, register x] => some (pointGlyph x)
  | "LD", [place .decimal, register x] => some (storeDecimal x)
  | "LD", [place .cells, register x] => some (storeRegisters x)
  | mnemonic, [register x, register y] => (AluOp.ofMnemonic? mnemonic).map (alu · x y)
  | _, _ => none

theorem ofParts?_parts (i : Instruction) : ofParts? i.mnemonic i.operands = some i := by
  cases i with
  | alu op x y => cases op <;> rfl
  | skipConst _ _ negated | skipSame _ _ negated | skipKey _ negated => cases negated <;> rfl
  | _ => rfl

theorem plain_mnemonic (i : Instruction) : Plain i.mnemonic.toList := by
  cases i with
  | alu op _ _ => cases op <;> dsimp only [mnemonic] <;> decide
  | skipConst _ _ negated | skipSame _ _ negated | skipKey _ negated =>
    cases negated <;> dsimp only [mnemonic] <;> decide
  | _ => dsimp only [mnemonic]; decide

theorem assembly_eq (i : Instruction) : i.assembly.toList = i.mnemonic.toList ++ Operand.listing i.operands := by
  cases i with
  | skipConst _ _ negated | skipSame _ _ negated | skipKey _ negated =>
    cases negated <;>
      simp [assembly, mnemonic, operands, Operand.listing, Operand.text, byteText, Text.hex, Register.name]
  | jumpOffset a =>
    simp [assembly, mnemonic, operands, Operand.listing, Operand.text, addressText, Text.hex]
    rfl
  | _ =>
    simp [assembly, mnemonic, operands, Operand.listing, Operand.text, Place.text, addressText, byteText, Text.hex,
      Register.name]

/-- The words of a line: what stands between its blanks, without commas. -/
def words (line : String) : List (List Char) := (line.toList.filter (· ≠ ',')).splitOn ' '

theorem words_assembly (i : Instruction) :
    words i.assembly = i.mnemonic.toList :: i.operands.map Operand.text := by
  have hjoin (first : List Char) (ops : List Operand) :
      first ++ (ops.flatMap fun o => ' ' :: o.text) = [' '].intercalate (first :: ops.map Operand.text) := by
    induction ops generalizing first with
    | nil => simp
    | cons o rest ih =>
      rw [List.map_cons, List.intercalate_cons_cons, ← ih, List.flatMap_cons]
      simp
  have hplain : ∀ word ∈ i.mnemonic.toList :: i.operands.map Operand.text, ' ' ∉ word := by
    refine List.forall_mem_cons.mpr ⟨i.plain_mnemonic.blank_not_mem, fun word hword => ?_⟩
    obtain ⟨o, -, rfl⟩ := List.mem_map.mp hword
    exact o.plain_text.blank_not_mem
  rw [words, assembly_eq, List.filter_append, i.plain_mnemonic.filter_comma, Operand.filter_listing, hjoin,
    List.splitOn_intercalate ' ' hplain (List.cons_ne_nil _ _)]

/-- The instruction that a line of assembly stands for. -/
def ofAssembly? (line : String) : Option Instruction :=
  match words line with
  | [] => none
  | mnemonic :: operands => (operands.mapM Operand.ofText?).bind (ofParts? (String.ofList mnemonic))

/-- A line of assembly is read as the instruction that it was written for. -/
theorem ofAssembly?_assembly (i : Instruction) : ofAssembly? i.assembly = some i := by
  have hoperands : (i.operands.map Operand.text).mapM Operand.ofText? = some i.operands := by
    simp only [List.mapM_map, Function.comp_def, Operand.ofText?_text]
    exact (List.mapM_pure (f := id)).trans (congrArg some (List.map_id _))
  rw [ofAssembly?, words_assembly]
  dsimp only
  rw [hoperands, String.ofList_toList, Option.bind_some, ofParts?_parts]

theorem assembly_injective {i i' : Instruction} (h : i.assembly = i'.assembly) : i = i' := by
  have hread := ofAssembly?_assembly i
  rw [h, ofAssembly?_assembly] at hread
  exact (Option.some.inj hread).symm

end Instruction

/-! ## Trace lines -/

/-- A word that is written in front of a text can be told from it. -/
theorem Text.hexWord_append_inj {v w : UInt16} {s t : String} (h : hexWord v ++ s = hexWord w ++ t) :
    v = w ∧ s = t := by
  have hlength (w : UInt16) : (hexDigits 4 w.toNat).length = 4 := length_hexDigits_of_lt (by decide) w.toNat_lt
  have hlist := congrArg String.toList h
  simp only [hexWord, hex, String.toList_append, String.toList_ofList] at hlist
  obtain ⟨hword, hrest⟩ := List.append_inj hlist ((hlength v).trans (hlength w).symm)
  exact ⟨UInt16.toNat_inj.mp (hexDigits_injective hword), String.toList_injective hrest⟩

namespace Machine

variable {m m' : Machine} {line : String}

/-- What a step says it executes is the word at the program counter. -/
theorem executing_mem_events {pc : UInt16} {w : Word} {i : Instruction} (h : .executing pc w i ∈ m.step.events) :
    pc = m.pc ∧ m.fetch = .ok w ∧ w.decode = .ok i := by
  unfold step at h
  cases hh : m.halted with
  | true => simp [hh] at h
  | false =>
    cases hfetch : m.fetch with
    | error f => simp [hh, hfetch, halt] at h
    | ok w' =>
      cases hdecode : w'.decode with
      | error f => simp [hh, hfetch, hdecode, halt] at h
      | ok i' =>
        simp only [hh, hfetch, hdecode, Bool.false_eq_true, if_false] at h
        have hsaid : Event.executing pc w i = .executing m.pc w' i' := by
          unfold dispatch at h
          dsimp only at h
          split at h
          · rcases List.mem_cons.mp h with h | h
            · exact h
            · cases i' <;> simp [remarks] at h
          · simpa [halt] using h
          · exact List.mem_singleton.mp h
        cases hsaid
        exact ⟨rfl, rfl, hdecode⟩

theorem trace_mem_records (h : (.trace, line) ∈ m.step.records) :
    ∃ w i, m.fetch = .ok w ∧ w.decode = .ok i ∧ (.trace, line) = m.traceLine w i := by
  obtain ⟨e, hmem, he⟩ := List.mem_map.mp h
  obtain ⟨hlevel, rfl⟩ := Prod.mk.inj he
  cases e with
  | executing pc w i =>
    obtain ⟨rfl, hfetch, hdecode⟩ := executing_mem_events hmem
    exact ⟨w, i, hfetch, hdecode, rfl⟩
  | _ => cases hlevel

theorem traceLine_inj {w w' : Word} {i i' : Instruction} (h : m.traceLine w i = m'.traceLine w' i') :
    m.pc = m'.pc ∧ w = w' := by
  have hline := (Prod.mk.inj h).2
  simp only [String.append_assoc] at hline
  obtain ⟨hpc, hrest⟩ := Text.hexWord_append_inj hline
  obtain ⟨hword, -⟩ := Text.hexWord_append_inj ((String.append_right_inj ": ").mp hrest)
  exact ⟨hpc, hword⟩

/-- Two steps with the same trace line are about the same word at the same address. -/
theorem same_word_of_trace (h : (.trace, line) ∈ m.step.records) (h' : (.trace, line) ∈ m'.step.records) :
    m.pc = m'.pc ∧ ∃ w, m.fetch = .ok w ∧ m'.fetch = .ok w := by
  obtain ⟨w, i, hfetch, -, hline⟩ := trace_mem_records h
  obtain ⟨w', i', hfetch', -, hline'⟩ := trace_mem_records h'
  obtain ⟨hpc, rfl⟩ := traceLine_inj (hline.symm.trans hline')
  exact ⟨hpc, w, hfetch, hfetch'⟩

end Machine

/-- Different instructions have different lines of assembly, operands that no word can carry included. So the line of
a word that decodes tells the word, and a trace line the word that is executed and its address. -/
theorem disassembly_unambiguous :
    (∀ i i' : Instruction, i.assembly = i'.assembly → i = i') ∧
      (∀ w w' i i', Word.decode w = .ok i → Word.decode w' = .ok i' → i.assembly = i'.assembly → w = w') ∧
      ∀ (m m' : Machine) (line : String), (.trace, line) ∈ m.step.records → (.trace, line) ∈ m'.step.records →
        m.pc = m'.pc ∧ ∃ w, m.Holds w ∧ m'.Holds w := by
  refine ⟨fun i i' h => Instruction.assembly_injective h, fun w w' i i' hi hi' h => ?_, fun m m' line h h' => ?_⟩
  · obtain rfl := Instruction.assembly_injective h
    rw [← (Word.decode_ok_iff_encode.mp hi).2, ← (Word.decode_ok_iff_encode.mp hi').2]
  · obtain ⟨hpc, w, hfetch, hfetch'⟩ := Machine.same_word_of_trace h h'
    exact ⟨hpc, w, Machine.fetch_ok_iff.mp hfetch, Machine.fetch_ok_iff.mp hfetch'⟩

/-- A machine about to copy `VB` to `VA`. -/
def copier (dialect : Dialect) (seed : UInt64) : Machine :=
  { Machine.new dialect (.ofSeed seed) with memory := Memory.blank.overlay imageStart [0x8A, 0xB0] }

/-- Machines that have nothing in common but the word they are at, and the line that both say of it. -/
theorem disassembly_unambiguous_copy :
    let m := copier .classic 0
    let m' := (copier .modern 1).tick 9
    let i := Instruction.alu .copy 0xA 0xB
    i.assembly = "LD VA, VB" ∧ Word.decode 0x8AB0 = .ok i ∧ Word.decode i.encode = .ok i ∧
      (0x8AB0 : Word) = i.encode ∧
      (.trace, "0200: 8ab0  LD VA, VB") ∈ m.step.records ∧ (.trace, "0200: 8ab0  LD VA, VB") ∈ m'.step.records ∧
      m.pc = m'.pc ∧ ∃ w, m.Holds w ∧ m'.Holds w := by
  intro m m' i
  obtain ⟨-, hwords, htrace⟩ := disassembly_unambiguous
  have hdecode : Word.decode 0x8AB0 = .ok i := by decide +kernel
  have hencode : Word.decode i.encode = .ok i := by decide +kernel
  have hline : (.trace, "0200: 8ab0  LD VA, VB") ∈ m.step.records := by decide +kernel
  have hline' : (.trace, "0200: 8ab0  LD VA, VB") ∈ m'.step.records := by decide +kernel
  exact ⟨by decide +kernel, hdecode, hencode, hwords _ _ i i hdecode hencode rfl, hline, hline',
    htrace m m' _ hline hline'⟩

end Chip8
