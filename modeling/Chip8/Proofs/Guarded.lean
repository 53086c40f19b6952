import Chip8.Proofs.Execution

/-!
# The step with every access checked

The machine names registers by bounded numbers, and its range operations clamp: `Memory.overlay` and
`Registers.overlay` drop what falls past the end, `Memory.slice` and `Registers.upTo` cut a range
short. Whether anything is ever dropped or cut cannot be seen from them. Here the step is written with
each element of a range read and replaced by its number (`peek`, `poke`), a number past the end being a
crash, and with the coordinate sums of a sprite checked against 64 bits.

* `load_eq`, `store_eq`, `draw_eq`: on what the instructions ask for, the checks pass and the clamping
  operations do the same.
* `step_eq`: the checked step is `Machine.step`, reply for reply, on every machine.

Sums of 16 bits and the frames of the call stack are checked by the machine itself
(`Action.afterWord`, `CallStack.push`, `CallStack.pop`) and stay as they are.
-/
namespace Chip8.Guarded

variable {α : Type} {n : Nat}

/-- Element number `i`. -/
def peek (xs : Vector α n) (i : Nat) : Except Crash α :=
  if h : i < n then .ok xs[i] else .error (.indexOutOfBounds n i)

/-- Replaces element number `i`. -/
def poke (xs : Vector α n) (i : Nat) (a : α) : Except Crash (Vector α n) :=
  if h : i < n then .ok (xs.set i a) else .error (.indexOutOfBounds n i)

/-- The elements from number `i` on, one after the other. -/
def peekRange (xs : Vector α n) (i : Nat) : Nat → Except Crash (List α)
  | 0 => .ok []
  | k + 1 => do
    let a ← peek xs i
    let rest ← peekRange xs (i + 1) k
    return a :: rest

/-- Replaces the elements from number `i` on, one after the other. -/
def pokeRange (xs : Vector α n) (i : Nat) : List α → Except Crash (Vector α n)
  | [] => .ok xs
  | a :: rest => do
    let ys ← poke xs i a
    pokeRange ys (i + 1) rest

theorem peek_eq (xs : Vector α n) {i : Nat} (h : i < n) : peek xs i = .ok xs[i] := dif_pos h

theorem poke_eq (xs : Vector α n) {i : Nat} (h : i < n) (a : α) :
    poke xs i a = .ok (xs.setIfInBounds i a) := by
  unfold poke
  rw [dif_pos h]
  exact congrArg _ (Vector.ext fun j hj => by rw [Vector.getElem_set, Vector.getElem_setIfInBounds])

theorem peekRange_eq (xs : Vector α n) (k i : Nat) (h : i + k ≤ n) :
    peekRange xs i k = .ok ((xs.toList.drop i).take k) := by
  induction k generalizing i with
  | zero => simp [peekRange]
  | succ k ih =>
    have hi : i < n := by omega
    have hl : i < xs.toList.length := by simpa using hi
    simp only [peekRange, peek_eq xs hi, ih (i + 1) (by omega)]
    rw [List.drop_eq_getElem_cons hl, List.take_succ_cons, Vector.getElem_toList]
    rfl

theorem pokeRange_memory (m : Memory) (bytes : List UInt8) (i : Nat)
    (h : i + bytes.length ≤ memorySize) :
    pokeRange m.cells i bytes = .ok (m.overlay i bytes).cells := by
  induction bytes generalizing m i with
  | nil => rfl
  | cons b rest ih =>
    rw [List.length_cons] at h
    simp only [pokeRange, poke_eq m.cells (show i < memorySize by omega), Memory.overlay]
    exact ih ⟨m.cells.setIfInBounds i b⟩ (i + 1) (by omega)

theorem pokeRange_registers (r : Registers) (bytes : List UInt8) (i : Nat)
    (h : i + bytes.length ≤ 16) :
    pokeRange r.values i bytes = .ok (r.overlay i bytes).values := by
  induction bytes generalizing r i with
  | nil => rfl
  | cons b rest ih =>
    rw [List.length_cons] at h
    simp only [pokeRange, poke_eq r.values (show i < 16 by omega), Registers.overlay]
    exact ih ⟨r.values.setIfInBounds i b⟩ (i + 1) (by omega)

/-! ## Sprites -/

/-- Flips the pixel at coordinates that fit 64 bits, and keeps track of whether a lit pixel has been
turned off. -/
def touch (st : Screen × Bool) (p : Nat × Nat) : Except Crash (Screen × Bool) :=
  if p.1 < coordinateLimit ∧ p.2 < coordinateLimit then do
    let lit ← peek st.1.pixels (pixelIndex p.1 p.2)
    let pixels ← poke st.1.pixels (pixelIndex p.1 p.2) (!lit)
    return (⟨pixels⟩, st.2 || lit)
  else .error .additionOverflow

/-- Draws a sprite pixel by pixel. -/
def draw (s : Screen) (x y : Nat) (sprite : List UInt8) : Except Crash (Screen × Bool) :=
  (spritePoints x y sprite).foldlM touch (s, false)

theorem touch_eq (st : Screen × Bool) {p : Nat × Nat} (h1 : p.1 < coordinateLimit)
    (h2 : p.2 < coordinateLimit) : touch st p = .ok (Screen.touch st p) := by
  have hi := pixelIndex_lt p.1 p.2
  unfold touch
  rw [if_pos ⟨h1, h2⟩, peek_eq _ hi]
  simp only [poke, hi, dif_pos, bind, Except.bind]
  rfl

theorem spritePoints_le {x y : Nat} {sprite : List UInt8} {p : Nat × Nat}
    (h : p ∈ spritePoints x y sprite) : p.1 ≤ x + 7 ∧ p.2 < y + sprite.length := by
  simp only [spritePoints, List.mem_flatMap, List.mem_map, Prod.exists] at h
  obtain ⟨row, r, hr, c, hc, rfl⟩ := h
  have hlt : r < sprite.length := by
    have := List.snd_lt_of_mem_zipIdx hr
    omega
  have hcol : c < 8 := by
    simp only [spriteColumns, List.mem_filter, List.mem_range] at hc
    exact hc.1
  simp only
  omega

theorem draw_eq (s : Screen) {x y : Nat} {sprite : List UInt8} (hx : x + 7 < coordinateLimit)
    (hy : y + sprite.length ≤ coordinateLimit) : draw s x y sprite = .ok (s.draw x y sprite) := by
  have key : ∀ (points : List (Nat × Nat)) (st : Screen × Bool),
      (∀ p ∈ points, p ∈ spritePoints x y sprite) →
      points.foldlM touch st = .ok (points.foldl Screen.touch st) := by
    intro points
    induction points with
    | nil => intro st _; rfl
    | cons p rest ih =>
      intro st hp
      have hle := spritePoints_le (hp p List.mem_cons_self)
      rw [List.foldlM_cons, touch_eq st (by omega) (by omega)]
      exact ih _ fun q hq => hp q (List.mem_cons_of_mem _ hq)
  exact key _ _ fun _ hp => hp

/-! ## The step -/

/-- The result of a checked access; one out of bounds stops the action as a crash. -/
def access : Except Crash α → Action α
  | .ok a => pure a
  | .error c => throw (.crash c)

/-- The bytes in memory from the index on. -/
def load (count : Nat) : Action (List UInt8) := do
  let m ← get
  Action.attempt (Memory.checkRange m.index.toNat count)
  access (peekRange m.memory.cells m.index.toNat count)

/-- Puts bytes into memory from the index on. -/
def store (bytes : List UInt8) : Action Unit := do
  let m ← get
  Action.attempt (Memory.checkRange m.index.toNat bytes.length)
  let cells ← access (pokeRange m.memory.cells m.index.toNat bytes)
  modify fun m => { m with memory := ⟨cells⟩ }

/-- `Instruction.effect` with the ranges of memory and registers and the pixels checked. The other
instructions have nothing to check beside what `Instruction.effect` checks itself. -/
def effect (pc next : UInt16) : Instruction → Action UInt16
  | .draw x y rows => do
    let column ← Action.reg x
    let row ← Action.reg y
    let sprite ← load rows.toNat
    let (screen, hit) ← access (draw (← get).screen column.toNat row.toNat sprite)
    modify fun m => { m with screen := screen }
    Action.setReg .flag (if hit then 1 else 0)
    return next
  | .storeDecimal x => do
    store (decimalDigits (← Action.reg x))
    return next
  | .storeRegisters x => do
    let bytes ← access (peekRange (← get).registers.values 0 (x.val + 1))
    store bytes
    Action.moveIndex (x.val + 1)
    return next
  | .loadRegisters x => do
    let bytes ← load (x.val + 1)
    let values ← access (pokeRange (← get).registers.values 0 bytes)
    modify fun m => { m with registers := ⟨values⟩ }
    Action.moveIndex (x.val + 1)
    return next
  | i => i.effect pc next

/-- `Instruction.execute` with every access checked. -/
def execute (i : Instruction) : Action UInt16 := do
  let pc := (← get).pc
  let next ← Action.afterWord pc
  effect pc next i

/-- The word at the program counter, byte by byte. -/
def fetch (m : Machine) : Except Stop Word :=
  match Memory.checkRange m.pc.toNat 2, peekRange m.memory.cells m.pc.toNat 2 with
  | .error f, _ => .error (.fault f)
  | .ok (), .error c => .error (.crash c)
  | .ok (), .ok bytes => .ok (UInt16.ofNat (bytes.foldl (fun w b => 256 * w + b.toNat) 0))

/-- `Machine.step` with every access checked. -/
def step (m : Machine) : Reply :=
  if m.halted then ⟨m, [], .error (.fault (.halted m.pc))⟩
  else match fetch m with
    | .error (.fault fault) => m.halt [] fault
    | .error (.crash crash) => ⟨m, [], .error (.crash crash)⟩
    | .ok word => match word.decode with
      | .error fault => m.halt [] fault
      | .ok i =>
        let trace := Event.executing m.pc word i
        match execute i m with
        | .ok next m' => ⟨{ m' with pc := next }, trace :: Machine.remarks m.pc i, .ok ()⟩
        | .error (.fault fault) m' => m'.halt [trace] fault
        | .error (.crash crash) m' => ⟨m', [trace], .error (.crash crash)⟩

theorem load_eq (count : Nat) : load count = Action.loadIndexed count := by
  funext m
  rw [Action.loadIndexed_apply]
  unfold load rangeFault?
  simp only [bind_apply, get_apply, Memory.checkRange]
  by_cases h : m.index.toNat + count ≤ memorySize
  · rw [peekRange_eq _ _ _ h]
    simp only [h, if_true]
    rfl
  · simp only [h]
    rfl

theorem store_eq (bytes : List UInt8) : store bytes = Action.storeIndexed bytes := by
  funext m
  rw [Action.storeIndexed_apply]
  unfold store rangeFault?
  simp only [bind_apply, get_apply, Memory.checkRange]
  by_cases h : m.index.toNat + bytes.length ≤ memorySize
  · rw [pokeRange_memory _ _ _ h]
    simp only [h, if_true]
    rfl
  · simp only [h]
    rfl

theorem drawSprite_eq (m : Machine) (column row rows : UInt8) :
    draw m.screen column.toNat row.toNat (m.memory.bytes m.index.toNat rows.toNat) =
      .ok (m.screen.draw column.toNat row.toNat (m.memory.bytes m.index.toNat rows.toNat)) := by
  have hlen : (m.memory.bytes m.index.toNat rows.toNat).length ≤ rows.toNat := List.length_take_le _ _
  have := column.toNat_lt
  have := row.toNat_lt
  have := rows.toNat_lt
  have hlimit : coordinateLimit = 0x10000000000000000 := rfl
  exact draw_eq m.screen (by omega) (by omega)

theorem effect_eq (pc next : UInt16) (i : Instruction) : effect pc next i = i.effect pc next := by
  cases i with
  | draw x y rows =>
    funext m
    simp only [effect, Instruction.effect, load_eq, bind_apply, Action.reg_apply,
      Action.loadIndexed_apply, get_apply]
    cases rangeFault? m.index.toNat rows.toNat with
    | none => simp only [drawSprite_eq]; rfl
    | some f => rfl
  | storeDecimal x => simp only [effect, Instruction.effect, store_eq]
  | storeRegisters x =>
    funext m
    have hx : 0 + (x.val + 1) ≤ 16 := by omega
    simp only [effect, Instruction.effect, store_eq, bind_apply, get_apply,
      peekRange_eq _ _ _ hx]
    rfl
  | loadRegisters x =>
    funext m
    simp only [effect, Instruction.effect, load_eq, bind_apply, Action.loadIndexed_apply,
      get_apply]
    cases rangeFault? m.index.toNat (x.val + 1) with
    | none =>
      have hlen : (m.memory.bytes m.index.toNat (x.val + 1)).length ≤ x.val + 1 :=
        List.length_take_le _ _
      have hfit : 0 + (m.memory.bytes m.index.toNat (x.val + 1)).length ≤ 16 := by omega
      simp only [pokeRange_registers _ _ _ hfit]
      rfl
    | some f => rfl
  | _ => rfl

theorem execute_eq (i : Instruction) : execute i = i.execute := by
  unfold execute Instruction.execute
  simp only [effect_eq]

theorem fetch_eq (m : Machine) :
    fetch m = match m.fetch with
      | .ok w => .ok w
      | .error f => .error (.fault f) := by
  unfold fetch Machine.fetch Memory.word Memory.checkRange
  by_cases h : m.pc.toNat + 2 ≤ memorySize
  · have h0 : m.pc.toNat < m.memory.cells.toList.length := by simp; omega
    have h1 : m.pc.toNat + 1 < m.memory.cells.toList.length := by simp; omega
    rw [peekRange_eq _ _ _ h, List.drop_eq_getElem_cons h0, List.drop_eq_getElem_cons h1]
    simp only [h, if_true, dif_pos]
    simp
  · simp only [h]
    rfl

/-- The step with every access checked is the step. -/
theorem step_eq (m : Machine) : step m = m.step := by
  unfold step Machine.step
  rw [fetch_eq]
  cases m.halted with
  | true => rfl
  | false =>
    cases m.fetch with
    | error f => rfl
    | ok w =>
      simp only [execute_eq]
      cases w.decode with
      | error f => rfl
      | ok i => rfl

end Chip8.Guarded
