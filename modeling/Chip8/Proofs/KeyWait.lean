import Chip8.Proofs.Halting
import Chip8.Proofs.RoundTrip
import Mathlib.Data.List.Induction

/-!
# Waiting for a key

Which keys are down is decided by the last request about each key; a request about a key that does not exist is
refused. `Fx0A` takes the lowest key that is down. While no key is down it continues at itself, and that step
changes nothing at all, so that a run cannot tell how many of them were made.

* `lowestDown_eq_some_iff`, `lowestDown_eq_none_iff`: the lowest key, by asking for each.
* `isDown_run_iff`: a key after a list of requests to a new machine.
* `step_of_noneDown`, `takesKey_of_lowestDown`: one step at `Fx0A`.
* `run_of_stepsWait`: any number of such steps while no key is down, with other requests in between.
* `key_wait_stutters`: all of this.
-/
namespace Chip8

/-- A request that neither presses a key nor loads. -/
def Operation.Quiet : Operation → Prop
  | .load _ => False
  | .setKey key pressed => pressed = true → keyCount ≤ key
  | _ => True

/-! ## The keypad -/

namespace Keypad

variable {k k' : Keypad} {key : Nat}

theorem isDown_of_lt (h : key < k.keys.toList.length) : k.isDown key = .ok k.keys.toList[key] := by
  have hkey : key < keyCount := Nat.lt_of_lt_of_eq h Vector.length_toList
  rw [isDown, dif_pos hkey, Vector.getElem_toList]

theorem lt_of_isDown {down : Bool} (h : k.isDown key = .ok down) : key < keyCount := by
  by_contra hge
  rw [isDown, dif_neg hge] at h
  cases h

theorem isDown_released (h : key < keyCount) : released.isDown key = .ok false := by
  rw [isDown, dif_pos h]
  simp [released]

theorem isDown_set {pressed : Bool} (h : k.set key pressed = .ok k') (other : Nat) :
    k'.isDown other = if other = key then .ok pressed else k.isDown other := by
  unfold set at h
  split at h
  · cases h
    by_cases hother : other < keyCount
    · simp only [isDown, dif_pos hother, Vector.getElem_set, eq_comm (a := key)]
      split <;> rfl
    · rw [if_neg (by omega), isDown, isDown, dif_neg hother, dif_neg hother]
  · cases h

theorem lowestDown_eq_some_iff :
    k.lowestDown = some key ↔ k.isDown key = .ok true ∧ ∀ lower < key, k.isDown lower = .ok false := by
  rw [lowestDown, List.findIdx?_eq_some_iff_getElem]
  constructor
  · rintro ⟨hkey, hdown, hlower⟩
    refine ⟨(isDown_of_lt hkey).trans (congrArg Except.ok hdown), fun lower hlt => ?_⟩
    rw [isDown_of_lt (Nat.lt_trans hlt hkey)]
    exact congrArg Except.ok (Bool.eq_false_iff.mpr (hlower lower hlt))
  · rintro ⟨hdown, hlower⟩
    have hkey : key < k.keys.toList.length :=
      Nat.lt_of_lt_of_eq (lt_of_isDown hdown) Vector.length_toList.symm
    refine ⟨hkey, Except.ok.inj ((isDown_of_lt hkey).symm.trans hdown), fun lower hlt => ?_⟩
    have hup := hlower lower hlt
    rw [isDown_of_lt (Nat.lt_trans hlt hkey)] at hup
    exact Bool.eq_false_iff.mp (Except.ok.inj hup)

theorem lowestDown_eq_none_iff :
    k.lowestDown = none ↔ ∀ key < keyCount, k.isDown key = .ok false := by
  have hlength : k.keys.toList.length = keyCount := Vector.length_toList
  rw [lowestDown, List.findIdx?_eq_none_iff, List.forall_mem_iff_forall_getElem]
  constructor
  · intro h key hkey
    have hplace : key < k.keys.toList.length := Nat.lt_of_lt_of_eq hkey hlength.symm
    exact (isDown_of_lt hplace).trans (congrArg Except.ok (h key hplace))
  · intro h key hplace
    have hup := h key (Nat.lt_of_lt_of_eq hplace hlength)
    exact Except.ok.inj ((isDown_of_lt hplace).symm.trans hup)

theorem exists_lowestDown (h : k.isDown key = .ok true) : ∃ lowest, k.lowestDown = some lowest := by
  refine Option.ne_none_iff_exists'.mp fun hnone => ?_
  cases h.symm.trans (lowestDown_eq_none_iff.mp hnone key (lt_of_isDown h))

end Keypad

namespace Machine

variable {m : Machine} {op : Operation} {ops : List Operation} {x : Register} {key : Nat}

/-! ## The keys over a run -/

/-- The last request about a key is to press it, or the last is to release it. -/
def LastAsked (key : Nat) (pressed : Bool) (ops : List Operation) : Prop :=
  ∃ before later, ops = before ++ .setKey key pressed :: later ∧ ∀ other, .setKey key other ∉ later

theorem lastAsked_concat {pressed : Bool} : LastAsked key pressed (ops ++ [op]) ↔
    op = .setKey key pressed ∨ (∀ other, op ≠ .setKey key other) ∧ LastAsked key pressed ops := by
  constructor
  · rintro ⟨before, later, hsplit, hlater⟩
    rcases later.eq_nil_or_concat with rfl | ⟨later, last, rfl⟩
    · exact .inl (List.singleton_inj.mp (List.append_inj' hsplit rfl).2)
    · rw [List.concat_eq_append, ← List.cons_append, ← List.append_assoc] at hsplit
      obtain ⟨rfl, hop⟩ := List.append_inj' hsplit rfl
      cases hop
      simp only [List.concat_eq_append, List.mem_append, List.mem_singleton, not_or] at hlater
      exact .inr ⟨fun other h => (hlater other).2 h.symm, before, later, rfl, fun other => (hlater other).1⟩
  · rintro (rfl | ⟨hop, before, later, rfl, hlater⟩)
    · exact ⟨ops, [], rfl, fun _ => List.not_mem_nil⟩
    · refine ⟨before, later ++ [op], by simp, fun other hmem => ?_⟩
      rcases List.mem_append.mp hmem with hmem | hmem
      · exact hlater other hmem
      · exact hop other (List.mem_singleton.mp hmem).symm

theorem isDown_perform_setKey_of_ne {other : Nat} (h : other ≠ key) (m : Machine) (pressed : Bool) :
    (m.perform (.setKey other pressed)).machine.keypad.isDown key = m.keypad.isDown key := by
  rw [perform, setKey]
  cases hset : m.keypad.set other pressed with
  | ok keypad => exact (Keypad.isDown_set hset key).trans (if_neg h.symm)
  | error f => rfl

/-- A request that is not about a key leaves it as it is. -/
theorem isDown_perform (hd : m.stack.depth ≤ stackFrames) (h : ∀ other, op ≠ .setKey key other) :
    (m.perform op).machine.keypad.isDown key = m.keypad.isDown key := by
  cases op with
  | load image =>
    simp only [perform, load]
    split <;> rfl
  | step =>
    rcases step_cases hd with ⟨f, -, -, -, hm⟩ | ⟨w, i, -, -, -, -, -, hm⟩
    · rw [perform, hm]
    · rw [perform, hm, (rest_after m i).1]
  | tick ticks => rfl
  | setKey key' pressed =>
    have hne : key' ≠ key := fun he => h pressed (congrArg (Operation.setKey · pressed) he)
    exact isDown_perform_setKey_of_ne hne m pressed

theorem isDown_perform_setKey (h : key < keyCount) (m : Machine) (pressed : Bool) :
    (m.perform (.setKey key pressed)).machine.keypad.isDown key = .ok pressed := by
  have hset : m.keypad.set key pressed = .ok ⟨m.keypad.keys.set key pressed⟩ := dif_pos h
  simp only [perform, setKey, hset, Keypad.isDown_set hset key, if_true]

/-- A key is down where the last request about it was to press it. -/
theorem isDown_run_iff (h : key < keyCount) (dialect : Dialect) (random : RandomStream)
    (ops : List Operation) :
    ((new dialect random).run ops).keypad.isDown key = .ok true ↔ LastAsked key true ops := by
  induction ops using List.reverseRecOn with
  | nil =>
    have hup : (new dialect random).keypad.isDown key = .ok false := Keypad.isDown_released h
    simp [run, hup, LastAsked]
  | append_singleton ops op ih =>
    have hdepth : ((new dialect random).run ops).stack.depth ≤ stackFrames := depth_le_run (Nat.zero_le _) ops
    rw [run_append, lastAsked_concat, ← ih]
    show (((new dialect random).run ops).perform op).machine.keypad.isDown key = .ok true ↔ _
    by_cases hop : ∃ other, op = .setKey key other
    · obtain ⟨other, rfl⟩ := hop
      rw [isDown_perform_setKey h]
      simp
    · have hne : ∀ other, op ≠ .setKey key other := fun other he => hop ⟨other, he⟩
      rw [isDown_perform hdepth hne]
      simp [hne]

/-! ## Waiting -/

/-- A running machine with `Fx0A` as its next word. -/
structure Awaits (m : Machine) (x : Register) : Prop where
  running : m.halted = false
  word : m.Holds (.ofByte 0xF x 0x0A)

/-- No key is down. -/
def NoneDown (m : Machine) : Prop := ∀ key < keyCount, m.keypad.isDown key = .ok false

/-- A step succeeds and takes a key into a register: it goes on behind the word and changes nothing else. -/
structure TakesKey (m : Machine) (x : Register) (key : Nat) : Prop where
  result : m.step.result = .ok ()
  pc : m.step.machine.pc.toNat = m.pc.toNat + 2
  register : (m.step.machine.registers.get x).toNat = key
  others : ∀ y, y ≠ x → m.step.machine.registers.get y = m.registers.get y
  rest : m.step.machine =
    { m with pc := m.step.machine.pc, registers := m.step.machine.registers }

theorem step_of_awaits (h : m.Awaits x) :
    m.step.result = .ok () ∧ m.step.machine = m.after (.awaitKey x) :=
  step_of_no_fault h.running (fetch_ok_iff.mpr h.word)
    (Word.decode_ok_iff.mpr (Word.row_iff.mpr ⟨⟨trivial, by simp, by simp⟩, rfl⟩)) False.elim rfl

/-- While no key is down, waiting changes nothing. -/
theorem step_of_noneDown (h : m.Awaits x) (hnone : m.NoneDown) :
    m.step.result = .ok () ∧ m.step.machine = m := by
  obtain ⟨hresult, hm⟩ := step_of_awaits h
  refine ⟨hresult, ?_⟩
  rw [hm, after, Instruction.change, Instruction.target, Keypad.lowestDown_eq_none_iff.mpr hnone]
  rfl

/-- The lowest key that is down ends the waiting. -/
theorem takesKey_of_lowestDown (h : m.Awaits x) (hlowest : m.keypad.lowestDown = some key) :
    m.TakesKey x key := by
  obtain ⟨hresult, hm⟩ := step_of_awaits h
  have hkey : key < keyCount := Keypad.lt_of_isDown (Keypad.lowestDown_eq_some_iff.mp hlowest).1
  have hcount : keyCount = 16 := rfl
  have hsize : memorySize = 4096 := rfl
  obtain ⟨hfits, -⟩ := h.word
  rw [after, Instruction.change, Instruction.target, hlowest] at hm
  refine ⟨hresult, ?_, ?_, fun y hy => ?_, ?_⟩
  · rw [hm]
    exact toNat_add_two (by omega)
  · rw [hm]
    show ((m.registers.set x (UInt8.ofNat key)).get x).toNat = key
    rw [Registers.get_set, if_pos rfl, UInt8.toNat_ofNat']
    omega
  · rw [hm]
    exact (Registers.get_set _ _ _ _).trans (if_neg hy.symm)
  · rw [hm]

/-- Every step among some requests finds the machine waiting, with no key down. -/
def StepsWait (m : Machine) : List Operation → Prop
  | [] => True
  | op :: rest =>
    (op.isStep = true → (∃ x, m.Awaits x) ∧ m.NoneDown) ∧ StepsWait (m.perform op).machine rest

/-- Steps that wait succeed, and what is left is what the other requests leave. -/
theorem run_of_stepsWait (h : m.StepsWait ops) :
    (∀ r ∈ m.stepResults ops, r = .ok ()) ∧ m.run ops = m.run (ops.filter fun op => !op.isStep) := by
  induction ops generalizing m with
  | nil => simp [stepResults]
  | cons op rest ih =>
    obtain ⟨hresults, hrun⟩ := ih h.2
    rw [stepResults, List.forall_mem_append]
    by_cases hop : op = .step
    · subst hop
      obtain ⟨⟨x, hawaits⟩, hnone⟩ := h.1 rfl
      obtain ⟨hresult, hm⟩ := step_of_noneDown hawaits hnone
      have hsame : (m.perform .step).machine = m := hm
      rw [hsame] at hresults hrun
      rw [List.filter_cons_of_neg (by simp [Operation.isStep]), run, hsame]
      exact ⟨⟨by simp [Operation.isStep, perform, hresult], hresults⟩, hrun⟩
    · have hother : op.isStep = false := by
        cases op with
        | step => exact absurd rfl hop
        | _ => rfl
      rw [List.filter_cons_of_pos (by simp [hother])]
      exact ⟨⟨by simp [hother], hresults⟩, hrun⟩

theorem Awaits.setKey (h : m.Awaits x) (key : Nat) (pressed : Bool) :
    (m.perform (.setKey key pressed)).machine.Awaits x := by
  rw [perform, Machine.setKey]
  cases m.keypad.set key pressed <;> exact ⟨h.running, h.word⟩

theorem waits_perform (h : m.Awaits x) (hnone : m.NoneDown) (hop : op.Quiet) :
    (m.perform op).machine.Awaits x ∧ (m.perform op).machine.NoneDown := by
  cases op with
  | load image => exact hop.elim
  | step =>
    have hsame : (m.perform .step).machine = m := (step_of_noneDown h hnone).2
    rw [hsame]
    exact ⟨h, hnone⟩
  | tick ticks => exact ⟨⟨h.running, h.word⟩, hnone⟩
  | setKey key pressed =>
    refine ⟨h.setKey key pressed, fun other hother => ?_⟩
    by_cases he : key = other
    · -- a key that exists can only be released
      subst he
      have hup : pressed ≠ true := fun hpressed => Nat.not_lt.mpr (hop hpressed) hother
      rw [isDown_perform_setKey hother, Bool.eq_false_iff.mpr hup]
    · rw [isDown_perform_setKey_of_ne he]
      exact hnone other hother

/-- Once a machine waits, its steps wait until a key goes down or another program is loaded. -/
theorem stepsWait_of_quiet (h : m.Awaits x) (hnone : m.NoneDown) (hops : ∀ op ∈ ops, op.Quiet) :
    m.StepsWait ops := by
  induction ops generalizing m with
  | nil => trivial
  | cons op rest ih =>
    obtain ⟨hop, hrest⟩ := List.forall_mem_cons.mp hops
    obtain ⟨hnext, hnextNone⟩ := waits_perform h hnone hop
    exact ⟨fun _ => ⟨⟨x, h⟩, hnone⟩, ih hnext hnextNone hrest⟩

/-- After any requests to a new machine a key is down exactly if the last request about it was to press it, and a
request about a key that does not exist changes nothing. At `Fx0A` a running machine with no key down makes a step
that succeeds and leaves the machine as it is; any such steps among other requests can be left out, and all steps
are such until a key is pressed or a program loaded. With a key down the step takes the lowest one. -/
theorem key_wait_stutters :
    (∀ dialect random ops key, key < 16 →
      let keypad := ((new dialect random).run ops).keypad
      (keypad.isDown key = .ok true ↔ LastAsked key true ops) ∧
        (keypad.isDown key = .ok false ↔ ¬ LastAsked key true ops)) ∧
    (∀ (m : Machine) (key : Nat) (pressed : Bool), 16 ≤ key →
      m.setKey key pressed = ⟨m, [], .error (.fault (.invalidKey key))⟩) ∧
    (∀ (m : Machine) (x : Register), m.Awaits x →
      (m.NoneDown → m.step.result = .ok () ∧ m.step.machine = m ∧
        ∀ ops, (∀ op ∈ ops, op.Quiet) → m.StepsWait ops) ∧
      ∀ down, m.keypad.isDown down = .ok true →
        ∃ key < 16, m.keypad.isDown key = .ok true ∧ (∀ lower < key, m.keypad.isDown lower = .ok false) ∧
          m.TakesKey x key) ∧
    ∀ (m : Machine) (ops : List Operation), m.StepsWait ops →
      (∀ r ∈ m.stepResults ops, r = .ok ()) ∧
        m.run ops = m.run (ops.filter fun op => !op.isStep) := by
  refine ⟨fun dialect random ops key hkey => ?_, fun m key pressed hkey => ?_, fun m x h => ⟨?_, ?_⟩,
    fun m ops h => run_of_stepsWait h⟩
  · have hdown := isDown_run_iff hkey dialect random ops
    refine ⟨hdown, ?_⟩
    have hexists : keyCount = 16 := rfl
    rw [← hdown, Keypad.isDown, dif_pos (hexists ▸ hkey)]
    simp
  · have hset : m.keypad.set key pressed = .error (.invalidKey key) := dif_neg (Nat.not_lt.mpr hkey)
    rw [setKey, hset]
  · intro hnone
    obtain ⟨hresult, hm⟩ := step_of_noneDown h hnone
    exact ⟨hresult, hm, fun ops hops => stepsWait_of_quiet h hnone hops⟩
  · intro down hdown
    obtain ⟨key, hlowest⟩ := Keypad.exists_lowestDown hdown
    obtain ⟨hkey, hlower⟩ := Keypad.lowestDown_eq_some_iff.mp hlowest
    exact ⟨key, Keypad.lt_of_isDown hkey, hkey, hlower, takesKey_of_lowestDown h hlowest⟩

/-- Key `B` pressed and released, and a key that does not exist, before a program that waits. -/
def keysBefore : List Operation :=
  [.setKey 0xB true, .load [0xF3, 0x0A], .setKey 0x14 true, .tick 2, .setKey 0xB false]

/-- Steps and a tick while no key is down leave what the tick alone leaves; then of two keys the lower is taken. -/
theorem key_wait_stutters_two_keys :
    let x : Register := ⟨3, by decide⟩
    let m := (new .classic (.ofSeed 0)).run keysBefore
    let pressed := m.run [.setKey 0xC true, .setKey 0xA true]
    m.Awaits x ∧ m.NoneDown ∧ ¬ LastAsked 0xB true keysBefore ∧
      m.run [.step, .tick 1, .step, .step] = m.run [.tick 1] ∧
      pressed.Awaits x ∧ pressed.keypad.isDown 0xC = .ok true ∧ pressed.TakesKey x 0xA := by
  intro x m pressed
  obtain ⟨hkeys, -, hwait, hskip⟩ := key_wait_stutters
  have hawaits : m.Awaits x := ⟨by decide +kernel, by decide +kernel, by decide +kernel⟩
  have hnone : m.NoneDown := by
    unfold NoneDown
    decide +kernel
  have hpressed : pressed.Awaits x := (hawaits.setKey 0xC true).setKey 0xA true
  have hdown : pressed.keypad.isDown 0xC = .ok true := by decide +kernel
  have hlowest : pressed.keypad.isDown 0xA = .ok true ∧
      ∀ lower < 0xA, pressed.keypad.isDown lower = .ok false := by
    decide +kernel
  have hreleased : ¬ LastAsked 0xB true keysBefore :=
    (hkeys .classic (.ofSeed 0) keysBefore 0xB (by decide)).2.mp (hnone 0xB (by decide))
  obtain ⟨-, -, hquiet⟩ := (hwait m x hawaits).1 hnone
  have hsteps : m.StepsWait [.step, .tick 1, .step, .step] := hquiet _ (by simp [Operation.Quiet])
  obtain ⟨key, -, hkey, hlower, htakes⟩ := (hwait pressed x hpressed).2 0xC hdown
  have hten : key = 0xA := by
    rcases Nat.lt_trichotomy key 0xA with hlt | heq | hgt
    · cases hkey.symm.trans (hlowest.2 key hlt)
    · exact heq
    · cases hlowest.1.symm.trans (hlower 0xA hgt)
  exact ⟨hawaits, hnone, hreleased, (hskip m _ hsteps).2, hpressed, hdown, hten ▸ htakes⟩

end Machine
end Chip8
