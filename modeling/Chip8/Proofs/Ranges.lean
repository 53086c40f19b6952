import Chip8.Proofs.Faults
import Chip8.Proofs.Guarded
import Chip8.Proofs.Overlay

/-!
# Ranges against single cells

A cell is looked up by its address, a range is checked as a whole before any of its cells is touched. The two
ways of checking agree: a range is refused exactly if one of its cells is, and the fault is that of the first
such cell.

`Memory` adds addresses and lengths as unbounded numbers and answers a request to change it with a new memory.
With numbers of 64 bits a sum can come out small, and with cells that change in place a request that is
refused too late leaves some of them changed. `Guarded.slice`, `Guarded.word`, `Guarded.replace` and
`Guarded.write` take such numbers, test the sum for overflow, check every cell number, and keep the memory
that a refusal leaves.

* `firstMissing_of_rangeFault?`: the fault of a range is the one that its first missing cell has by itself.
* `sliceAgrees`, `storeAgrees`, `toNat_word`, `writeAgrees`: each request in terms of `read`.
* `Guarded.rangeEnd_eq`: a sum that overflows is refused like one that is too large.
* `ranges_agree_with_cells`: all of this for every 64-bit address and length.
-/
namespace Chip8

namespace Memory

variable {α : Type} {m : Memory} {address length : Nat}

/-- `f` is the fault of the first cell of a range that does not exist: all cells before it can be read. -/
def FirstMissing (m : Memory) (address length : Nat) (f : Fault) : Prop :=
  ∃ k < length, f = .addressOutOfRange (address + k) ∧ m.read (address + k) = .error f ∧
    ∀ j < k, ∃ b, m.read (address + j) = .ok b

/-- A request about a range succeeds exactly if the range ends inside memory. If it fails, it is with the
fault of the first missing cell. -/
structure Covers (m : Memory) (address length : Nat) (result : Except Fault α) : Prop where
  ok_iff : (∃ a, result = .ok a) ↔ address + length ≤ 4096
  fault : 1 ≤ length → ∀ f, result = .error f → m.FirstMissing address length f

/-- What `slice` answers, in terms of `read`. -/
structure SliceAgrees (m : Memory) (address length : Nat) : Prop where
  covers : m.Covers address length (m.slice address length)
  bytes : ∀ bytes, m.slice address length = .ok bytes →
    bytes.length = length ∧ ∀ k (hk : k < bytes.length), m.read (address + k) = .ok bytes[k]

/-- What `store` does, in terms of `read`. -/
structure StoreAgrees (m : Memory) (address : Nat) (bytes : List UInt8) : Prop where
  covers : m.Covers address bytes.length (m.store address bytes)
  inside : ∀ m', m.store address bytes = .ok m' →
    ∀ k (hk : k < bytes.length), m'.read (address + k) = .ok bytes[k]
  outside : ∀ m', m.store address bytes = .ok m' →
    ∀ a, a < address ∨ address + bytes.length ≤ a → m'.read a = m.read a

/-- What `write` does, in terms of `read`. -/
structure WriteAgrees (m : Memory) (address : Nat) (value : UInt8) : Prop where
  error_iff : ∀ f, m.write address value = .error f ↔ m.read address = .error f
  cells : ∀ m', m.write address value = .ok m' →
    m'.read address = .ok value ∧ ∀ a, a ≠ address → m'.read a = m.read a

/-- A value, if a range is inside memory. -/
def confined (address length : Nat) (value : α) : Except Fault α :=
  match rangeFault? address length with
  | none => .ok value
  | some f => .error f

theorem confined_of_le (h : address + length ≤ memorySize) (value : α) :
    confined address length value = .ok value := by
  unfold confined rangeFault?
  rw [if_pos h]

theorem confined_of_lt (h : memorySize < address + length) (value : α) :
    confined address length value = .error (.addressOutOfRange (max address memorySize)) := by
  unfold confined rangeFault?
  rw [if_neg (Nat.not_le.mpr h)]

theorem confined_eq_ok_iff {value a : α} :
    confined address length value = .ok a ↔ address + length ≤ memorySize ∧ value = a := by
  unfold confined rangeFault?
  by_cases h : address + length ≤ memorySize <;> simp [h]

theorem confined_eq_error_iff {value : α} {f : Fault} :
    confined address length value = .error f ↔ rangeFault? address length = some f := by
  unfold confined
  cases rangeFault? address length <;> simp

theorem slice_eq_confined (m : Memory) (address length : Nat) :
    m.slice address length = confined address length (m.bytes address length) :=
  m.slice_eq address length

theorem store_eq_confined (m : Memory) (address : Nat) (bytes : List UInt8) :
    m.store address bytes = confined address bytes.length (m.overlay address bytes) := by
  unfold store checkRange confined rangeFault?
  by_cases h : address + bytes.length ≤ memorySize <;> simp only [h] <;> rfl

theorem fill_eq_store (m : Memory) (address length : Nat) (value : UInt8) :
    m.fill address length value = m.store address (List.replicate length value) := by
  unfold fill store
  rw [List.length_replicate]

/-! ## The first missing cell -/

theorem read_of_lt (m : Memory) {a : Nat} (h : a < memorySize) : m.read a = .ok m.cells[a] := dif_pos h

theorem read_of_le (m : Memory) {a : Nat} (h : memorySize ≤ a) :
    m.read a = .error (.addressOutOfRange a) := dif_neg (Nat.not_lt.mpr h)

/-- The fault of a range is the one that its first missing cell has by itself. -/
theorem firstMissing_of_rangeFault? (m : Memory) {f : Fault} (h : rangeFault? address length = some f)
    (hlength : 1 ≤ length) : m.FirstMissing address length f := by
  obtain ⟨hpast, rfl⟩ := rangeFault?_eq_some_iff.mp h
  rcases Nat.le_total address memorySize with hle | hle
  · -- the range starts inside, and the first cell past the end is missing
    have hcell : address + (memorySize - address) = memorySize := by omega
    rw [Nat.max_eq_right hle]
    refine ⟨memorySize - address, by omega, ?_, ?_, ?_⟩
    · rw [hcell]
    · rw [hcell]
      exact m.read_of_le (Nat.le_refl _)
    · intro j hj
      exact ⟨_, m.read_of_lt (show address + j < memorySize by omega)⟩
  · -- the range starts outside, and its own first cell is missing
    rw [Nat.max_eq_left hle]
    refine ⟨0, hlength, rfl, m.read_of_le hle, ?_⟩
    intro j hj
    omega

theorem covers_confined (m : Memory) (address length : Nat) (value : α) :
    m.Covers address length (confined address length value) where
  ok_iff := by
    constructor
    · rintro ⟨a, ha⟩
      exact (confined_eq_ok_iff.mp ha).1
    · intro h
      exact ⟨value, confined_eq_ok_iff.mpr ⟨h, rfl⟩⟩
  fault hlength _ hf := m.firstMissing_of_rangeFault? (confined_eq_error_iff.mp hf) hlength

/-! ## The requests -/

theorem length_bytes (m : Memory) (h : address + length ≤ memorySize) :
    (m.bytes address length).length = length := by
  rw [bytes, List.length_take, List.length_drop, Vector.length_toList]
  omega

theorem read_bytes (m : Memory) (h : address + length ≤ memorySize) {k : Nat}
    (hk : k < (m.bytes address length).length) :
    m.read (address + k) = .ok (m.bytes address length)[k] := by
  have hlt : k < length := by rwa [m.length_bytes h] at hk
  rw [m.read_of_lt (show address + k < memorySize by omega)]
  simp only [bytes, List.getElem_take, List.getElem_drop, Vector.getElem_toList]

theorem sliceAgrees (m : Memory) (address length : Nat) : m.SliceAgrees address length where
  covers := by
    rw [slice_eq_confined]
    exact m.covers_confined address length _
  bytes bytes h := by
    rw [slice_eq_confined] at h
    obtain ⟨hfit, rfl⟩ := confined_eq_ok_iff.mp h
    exact ⟨m.length_bytes hfit, fun k hk => m.read_bytes hfit hk⟩

theorem storeAgrees (m : Memory) (address : Nat) (bytes : List UInt8) :
    m.StoreAgrees address bytes where
  covers := by
    rw [store_eq_confined]
    exact m.covers_confined address bytes.length _
  inside m' h k hk := by
    rw [store_eq_confined] at h
    obtain ⟨hfit, rfl⟩ := confined_eq_ok_iff.mp h
    exact m.read_overlay_of_mem bytes hk (by omega)
  outside m' h a ha := by
    rw [store_eq_confined] at h
    obtain ⟨-, rfl⟩ := confined_eq_ok_iff.mp h
    exact m.read_overlay_of_not_mem bytes ha

/-- A word is its two bytes, the high one first, or the fault of the first one that is missing. -/
theorem toNat_word (m : Memory) (address : Nat) :
    (m.word address).map UInt16.toNat = do
      let high ← m.read address
      let low ← m.read (address + 1)
      return 256 * high.toNat + low.toNat := by
  have hsize : memorySize = 4096 := rfl
  unfold word
  by_cases h : address + 2 ≤ memorySize
  · have := m.cells[address].toNat_lt
    have := m.cells[address + 1].toNat_lt
    rw [dif_pos h, m.read_of_lt (show address < memorySize by omega),
      m.read_of_lt (show address + 1 < memorySize by omega)]
    show Except.ok _ = Except.ok _
    rw [UInt16.toNat_ofNat', Nat.mod_eq_of_lt (by omega)]
  · rw [dif_neg h]
    by_cases hfirst : address < memorySize
    · have hlast : address + 1 = memorySize := by omega
      rw [Nat.max_eq_right (by omega), m.read_of_lt hfirst, hlast, m.read_of_le (Nat.le_refl _)]
      rfl
    · rw [Nat.max_eq_left (by omega), m.read_of_le (by omega)]
      rfl

/-- Replacing one cell is storing one byte. -/
theorem write_eq_store (m : Memory) (address : Nat) (value : UInt8) :
    m.write address value = m.store address [value] := by
  rw [store_eq_confined]
  unfold write confined rangeFault?
  by_cases h : address < memorySize
  · have hset : m.cells.set address value = m.cells.setIfInBounds address value := by
      apply Vector.ext
      intro i hi
      rw [Vector.getElem_set, Vector.getElem_setIfInBounds]
    rw [dif_pos h, if_pos (show address + [value].length ≤ memorySize from h), hset]
    rfl
  · rw [dif_neg h, if_neg (show ¬ address + [value].length ≤ memorySize from h),
      Nat.max_eq_left (Nat.not_lt.mp h)]

theorem writeAgrees (m : Memory) (address : Nat) (value : UInt8) : m.WriteAgrees address value := by
  have hstore := m.storeAgrees address [value]
  refine ⟨fun f => ?_, fun m' h => ?_⟩
  · rw [write_eq_store]
    constructor
    · intro h
      obtain ⟨k, hk, -, hread, -⟩ := hstore.covers.fault (Nat.le_refl 1) f h
      obtain rfl : k = 0 := Nat.lt_one_iff.mp hk
      exact hread
    · intro h
      by_cases hlt : address < memorySize
      · cases (m.read_of_lt hlt).symm.trans h
      · have hle : memorySize ≤ address := Nat.not_lt.mp hlt
        obtain rfl := Except.error.inj ((m.read_of_le hle).symm.trans h)
        rw [store_eq_confined, confined_eq_error_iff, rangeFault?_eq_some_iff, Nat.max_eq_left hle]
        exact ⟨Nat.lt_succ_of_le hle, rfl⟩
  · rw [write_eq_store] at h
    refine ⟨hstore.inside m' h 0 Nat.one_pos, fun a ha => hstore.outside m' h a ?_⟩
    rw [List.length_singleton]
    omega

end Memory

/-! ## 64-bit numbers and cells that change in place -/

namespace Guarded

variable {α : Type}

/-- Something done with memory, which may stop half-way. -/
abbrev Access := EStateM Stop Memory

/-- A checked answer; a refusal stops the access as a fault. -/
def settle : Except Fault α → Access α
  | .ok a => pure a
  | .error f => throw (.fault f)

/-- An answer with its cell numbers checked; one that is out of bounds stops the access as a crash. -/
def certain : Except Crash α → Access α
  | .ok a => pure a
  | .error c => throw (.crash c)

/-- The end of a range, if it is inside memory. A sum of 64 bits has overflowed if it is less than what was
added to. -/
def rangeEnd (address length : UInt64) : Except Fault UInt64 :=
  if address ≤ address + length ∧ (address + length).toNat ≤ memorySize then .ok (address + length)
  else .error (.addressOutOfRange (max address.toNat memorySize))

/-- The bytes of a range. -/
def slice (address length : UInt64) : Access (List UInt8) := do
  let last ← settle (rangeEnd address length)
  certain (peekRange (← get).cells address.toNat (last.toNat - address.toNat))

/-- The big-endian word at an address. -/
def word (address : UInt64) : Access UInt16 := do
  let bytes ← slice address 2
  return UInt16.ofNat (bytes.foldl (fun w b => 256 * w + b.toNat) 0)

/-- Replaces the bytes of a range, as many as its length. -/
def replace (address length : UInt64) (bytes : List UInt8) : Access Unit := do
  let _ ← settle (rangeEnd address length)
  let cells ← certain (pokeRange (← get).cells address.toNat bytes)
  set (Memory.mk cells)

/-- Replaces the byte in one cell. -/
def write (address : UInt64) (value : UInt8) : Access Unit := do
  if address.toNat < memorySize then
    let cells ← certain (poke (← get).cells address.toNat value)
    set (Memory.mk cells)
  else throw (.fault (.addressOutOfRange address.toNat))

/-- An answer that leaves memory as it is. -/
def answers (m : Memory) : Except Fault α → EStateM.Result Stop Memory α
  | .ok a => .ok a m
  | .error f => .error (.fault f) m

/-- A change of memory, or a refusal that leaves it as it is. -/
def leaves (m : Memory) : Except Fault Memory → EStateM.Result Stop Memory Unit
  | .ok m' => .ok () m'
  | .error f => .error (.fault f) m

variable (m : Memory) (address length : UInt64)

/-- A sum that overflows is refused like one that is past the end. -/
theorem rangeEnd_eq :
    rangeEnd address length = Memory.confined address.toNat length.toNat (address + length) := by
  have ha := address.toNat_lt
  have hl := length.toNat_lt
  have hsize : memorySize = 4096 := rfl
  have hsum : (address + length).toNat = (address.toNat + length.toNat) % 2 ^ 64 :=
    UInt64.toNat_add address length
  have hiff : address ≤ address + length ∧ (address + length).toNat ≤ memorySize ↔
      address.toNat + length.toNat ≤ memorySize := by
    rw [UInt64.le_iff_toNat_le]
    omega
  unfold rangeEnd Memory.confined rangeFault?
  by_cases h : address.toNat + length.toNat ≤ memorySize
  · rw [if_pos (hiff.mpr h), if_pos h]
  · rw [if_neg (mt hiff.mp h), if_neg h]

theorem toNat_end {address length : UInt64} (h : address.toNat + length.toNat ≤ memorySize) :
    (address + length).toNat = address.toNat + length.toNat := by
  have hsize : memorySize = 4096 := rfl
  rw [UInt64.toNat_add]
  omega

theorem slice_eq :
    slice address length m = answers m (m.slice address.toNat length.toNat) := by
  unfold slice
  rw [bind_apply, rangeEnd_eq, Memory.slice_eq_confined]
  rcases Nat.lt_or_ge memorySize (address.toNat + length.toNat) with h | h
  · rw [Memory.confined_of_lt h, Memory.confined_of_lt h]
    rfl
  · have hcount : (address + length).toNat - address.toNat = length.toNat := by
      rw [toNat_end h, Nat.add_sub_cancel_left]
    rw [Memory.confined_of_le h, Memory.confined_of_le h]
    show certain (peekRange m.cells address.toNat ((address + length).toNat - address.toNat)) m = _
    rw [hcount, peekRange_eq _ _ _ h]
    rfl

theorem word_eq : word address m = answers m (m.word address.toNat) := by
  have htwo : (2 : UInt64).toNat = 2 := rfl
  unfold word
  rw [bind_apply, slice_eq, htwo, Memory.slice_eq_confined]
  unfold Memory.word
  rcases Nat.lt_or_ge memorySize (address.toNat + 2) with h | h
  · rw [Memory.confined_of_lt h, dif_neg (Nat.not_le.mpr h)]
    rfl
  · have hfirst : address.toNat < m.cells.toList.length := by
      rw [Vector.length_toList]
      omega
    have hsecond : address.toNat + 1 < m.cells.toList.length := by
      rw [Vector.length_toList]
      omega
    have hbytes : m.bytes address.toNat 2 =
        [m.cells[address.toNat], m.cells[address.toNat + 1]] := by
      unfold Memory.bytes
      rw [List.drop_eq_getElem_cons hfirst, List.drop_eq_getElem_cons hsecond]
      rfl
    rw [Memory.confined_of_le h, dif_pos h, hbytes]
    show EStateM.Result.ok (UInt16.ofNat (256 * (256 * 0 + _) + _)) m = .ok (UInt16.ofNat _) m
    rw [Nat.mul_zero, Nat.zero_add]

theorem replace_eq {bytes : List UInt8} (hlength : bytes.length = length.toNat) :
    replace address length bytes m = leaves m (m.store address.toNat bytes) := by
  unfold replace
  rw [bind_apply, rangeEnd_eq, Memory.store_eq_confined, hlength]
  rcases Nat.lt_or_ge memorySize (address.toNat + length.toNat) with h | h
  · rw [Memory.confined_of_lt h, Memory.confined_of_lt h]
    rfl
  · rw [Memory.confined_of_le h, Memory.confined_of_le h]
    show (certain (pokeRange m.cells address.toNat bytes) >>= fun cells => set (Memory.mk cells)) m = _
    rw [pokeRange_memory m bytes _ (by omega)]
    rfl

theorem write_eq (value : UInt8) :
    write address value m = leaves m (m.write address.toNat value) := by
  unfold write Memory.write
  by_cases h : address.toNat < memorySize
  · rw [if_pos h, dif_pos h]
    show (certain (poke m.cells address.toNat value) >>= fun cells => set (Memory.mk cells)) m = _
    unfold poke
    rw [dif_pos h]
    rfl
  · rw [if_neg h, dif_neg h]
    rfl

end Guarded

/-- For every memory and all 64-bit addresses and lengths: reading and replacing a range, reading a word and
replacing a byte are what their cells one by one say. A range is refused exactly if it ends past the last
cell, with no wrapping of the sum, and the fault is that of its first missing cell; a change touches
the addressed cells and no other, and a request that is refused changes none. -/
theorem ranges_agree_with_cells (m : Memory) (address length : UInt64) :
    (m.SliceAgrees address.toNat length.toNat ∧
      Guarded.slice address length m = Guarded.answers m (m.slice address.toNat length.toNat)) ∧
    (∀ bytes : List UInt8, bytes.length = length.toNat →
      m.StoreAgrees address.toNat bytes ∧
        Guarded.replace address length bytes m = Guarded.leaves m (m.store address.toNat bytes)) ∧
    (∀ value, m.fill address.toNat length.toNat value =
      m.store address.toNat (List.replicate length.toNat value)) ∧
    ((m.word address.toNat).map UInt16.toNat = (do
        let high ← m.read address.toNat
        let low ← m.read (address.toNat + 1)
        return 256 * high.toNat + low.toNat) ∧
      Guarded.word address m = Guarded.answers m (m.word address.toNat)) ∧
    ∀ value, m.WriteAgrees address.toNat value ∧
      Guarded.write address value m = Guarded.leaves m (m.write address.toNat value) := by
  refine ⟨⟨m.sliceAgrees _ _, Guarded.slice_eq m address length⟩, ?_, m.fill_eq_store _ _,
    ⟨m.toNat_word _, Guarded.word_eq m address⟩, ?_⟩
  · intro bytes hlength
    exact ⟨m.storeAgrees _ bytes, Guarded.replace_eq m address length hlength⟩
  · intro value
    exact ⟨m.writeAgrees _ value, Guarded.write_eq m address value⟩

/-- Five bytes from two below the largest address on, where the sum is three: refused at the first of them,
with nothing changed. Three bytes from two below the end of memory on: refused at the end. -/
theorem ranges_agree_with_cells_wrapping :
    let top : UInt64 := 0xFFFFFFFFFFFFFFFE
    (top + 5).toNat = 3 ∧ [1, 2, 3, 4, 5].length = (5 : UInt64).toNat ∧
      Guarded.replace top 5 [1, 2, 3, 4, 5] .blank =
        .error (.fault (.addressOutOfRange 0xFFFFFFFFFFFFFFFE)) .blank ∧
      Memory.blank.FirstMissing top.toNat 5 (.addressOutOfRange 0xFFFFFFFFFFFFFFFE) ∧
      Memory.blank.FirstMissing 0xFFE 3 (.addressOutOfRange 0x1000) := by
  intro top
  have hlength : [1, 2, 3, 4, 5].length = (5 : UInt64).toNat := rfl
  have hstore : Memory.blank.store top.toNat [1, 2, 3, 4, 5] =
      .error (.addressOutOfRange 0xFFFFFFFFFFFFFFFE) := rfl
  have hslice : Memory.blank.slice (0xFFE : UInt64).toNat (3 : UInt64).toNat =
      .error (.addressOutOfRange 0x1000) := rfl
  obtain ⟨-, hreplace, -⟩ := ranges_agree_with_cells .blank top 5
  obtain ⟨hagrees, heq⟩ := hreplace [1, 2, 3, 4, 5] hlength
  obtain ⟨⟨hread, -⟩, -⟩ := ranges_agree_with_cells .blank 0xFFE 3
  refine ⟨by decide, hlength, ?_, ?_, ?_⟩
  · rw [heq, hstore]
    rfl
  · exact hagrees.covers.fault (by decide) _ hstore
  · exact hread.covers.fault (by decide) _ hslice

end Chip8
