import Chip8.Proofs.Executed
import Mathlib.Data.List.Forall2
import Mathlib.Tactic.ByContra

/-!
# Which components can tell on the others

Two machines that differ in one component can come to differ elsewhere only through an instruction that
reads it. `Word.Reads` is the table of these readers.

The proof looks at one machine and at the same machine with the component put out of the way
(`Machine.without`). The verdict on a machine asks none of the six components (`verdict_without`), and an
instruction that does not read the component leaves the same in the two (`after_without`). What is equal
to the same machine without the component is equal to each other, so this says all about pairs.

* `agreeExcept_iff`: agreement of two machines, component by component, is equality without the component.
* `perform_agree`: one request keeps it, with the same result, unless it carries out a reader.
* `noninterference`: so does a list of requests, after each of them.
-/
namespace Chip8

/-- The components of a machine that few instructions read. -/
inductive Component where
  | sound
  | delay
  | keypad
  | screen
  | random
  | dialect
  deriving DecidableEq, Repr

/-- The words that read a component. -/
def Word.Reads (w : Word) : Component → Prop
  | .sound => False
  | .delay => w.family = 0xF ∧ w.kk.toNat = 0x07
  | .keypad =>
    w.family = 0xE ∧ (w.kk.toNat = 0x9E ∨ w.kk.toNat = 0xA1) ∨ w.family = 0xF ∧ w.kk.toNat = 0x0A
  | .screen => w.family = 0xD
  | .random => w.family = 0xC
  | .dialect =>
    w.family = 0x8 ∧ (w.n.toNat = 0x6 ∨ w.n.toNat = 0xE) ∧ w.x ≠ w.y ∨
      w.family = 0xF ∧ (w.kk.toNat = 0x55 ∨ w.kk.toNat = 0x65)

instance (w : Word) : (c : Component) → Decidable (w.Reads c)
  | .sound => inferInstanceAs (Decidable False)
  | .delay => inferInstanceAs (Decidable (_ ∧ _))
  | .keypad => inferInstanceAs (Decidable (_ ∨ _))
  | .screen => inferInstanceAs (Decidable (_ = _))
  | .random => inferInstanceAs (Decidable (_ = _))
  | .dialect => inferInstanceAs (Decidable (_ ∨ _))

/-- Two machines agree on everything but perhaps one component. -/
structure AgreeExcept (c : Component) (m₁ m₂ : Machine) : Prop where
  memory : m₁.memory = m₂.memory
  registers : m₁.registers = m₂.registers
  stack : m₁.stack = m₂.stack
  pc : m₁.pc = m₂.pc
  index : m₁.index = m₂.index
  halted : m₁.halted = m₂.halted
  sound : c ≠ .sound → m₁.sound = m₂.sound
  delay : c ≠ .delay → m₁.delay = m₂.delay
  keypad : c ≠ .keypad → m₁.keypad = m₂.keypad
  screen : c ≠ .screen → m₁.screen = m₂.screen
  random : c ≠ .random → m₁.random = m₂.random
  dialect : c ≠ .dialect → m₁.dialect = m₂.dialect

/-- Only the shifts of one register into another ask for the dialect. -/
theorem Registers.applyAlu_dialect (r : Registers) (d d' : Dialect) {op : AluOp} {x y : Register}
    (h : op = .shiftRight ∨ op = .shiftLeft → x = y) :
    r.applyAlu d op x y = r.applyAlu d' op x y := by
  cases op with
  | shiftRight =>
    obtain rfl := h (.inl rfl)
    simp only [applyAlu, ite_self]
  | shiftLeft =>
    obtain rfl := h (.inr rfl)
    simp only [applyAlu, ite_self]
  | _ => rfl

namespace Machine

/-- The machine with a component as if nothing had ever touched it. -/
def without (m : Machine) : Component → Machine
  | .sound => { m with sound := .idle }
  | .delay => { m with delay := .idle }
  | .keypad => { m with keypad := .released }
  | .screen => { m with screen := .blank }
  | .random => { m with random := default }
  | .dialect => { m with dialect := default }

variable {m : Machine} {c : Component} {i : Instruction} {w : Word}

theorem agreeExcept_iff {m₁ m₂ : Machine} : AgreeExcept c m₁ m₂ ↔ m₁.without c = m₂.without c := by
  constructor
  · rintro ⟨hmemory, hregisters, hstack, hpc, hindex, hhalted, hsound, hdelay, hkeypad, hscreen, hrandom,
      hdialect⟩
    cases c <;> simp_all [without]
  · intro h
    cases c <;> simp only [without, Machine.mk.injEq] at h <;> constructor <;> simp_all

/-! ## One instruction -/

theorem verdict_without (m : Machine) (c : Component) : (m.without c).verdict = m.verdict := by
  cases c <;> rfl

theorem target_without (hi : i.Row w) (hr : ¬ w.Reads c) : i.target (m.without c) = i.target m := by
  cases c with
  | keypad =>
    cases i with
    | skipKey x negated =>
      obtain ⟨hf, hk, -⟩ := hi
      cases negated
      · exact absurd (.inl ⟨hf, .inl hk⟩) hr
      · exact absurd (.inl ⟨hf, .inr hk⟩) hr
    | awaitKey x => exact absurd (.inr ⟨hi.1, hi.2.1⟩) hr
    | _ => rfl
  | _ => rfl

/-- An instruction that does not read a component leaves the same without it. -/
theorem without_change (hi : i.Row w) (hr : ¬ w.Reads c) :
    (i.change (m.without c)).without c = (i.change m).without c := by
  -- each component has its readers, which are not carried out; waiting for a key asks the keypad which
  -- fields to write, so it only opens by its equation
  cases c with
  | sound =>
    cases i with
    | awaitKey x => simp only [Instruction.change_awaitKey]; rfl
    | _ => rfl
  | delay =>
    cases i with
    | readDelay x => exact absurd ⟨hi.1, hi.2.1⟩ hr
    | awaitKey x => simp only [Instruction.change_awaitKey]; rfl
    | _ => rfl
  | keypad =>
    cases i with
    | awaitKey x => exact absurd (.inr ⟨hi.1, hi.2.1⟩) hr
    | _ => rfl
  | screen =>
    cases i with
    | draw x y rows => exact absurd hi.1 hr
    | awaitKey x => simp only [Instruction.change_awaitKey]; rfl
    | _ => rfl
  | random =>
    cases i with
    | random x mask => exact absurd hi.1 hr
    | awaitKey x => simp only [Instruction.change_awaitKey]; rfl
    | _ => rfl
  | dialect =>
    cases i with
    | alu op x y =>
      obtain ⟨hf, hn, rfl, rfl⟩ := hi
      have hsame : op = .shiftRight ∨ op = .shiftLeft → w.x = w.y := by
        intro hop
        by_contra hne
        refine hr (.inl ⟨hf, ?_, hne⟩)
        rcases hop with rfl | rfl
        · exact .inl hn
        · exact .inr hn
      simp only [without, Instruction.change]
      rw [m.registers.applyAlu_dialect default m.dialect hsame]
    | storeRegisters x => exact absurd (.inr ⟨hi.1, .inl hi.2.1⟩) hr
    | loadRegisters x => exact absurd (.inr ⟨hi.1, .inr hi.2.1⟩) hr
    | awaitKey x => simp only [Instruction.change_awaitKey]; rfl
    | _ => rfl

theorem after_without (hi : i.Row w) (hr : ¬ w.Reads c) :
    AgreeExcept c ((m.without c).after i) (m.after i) :=
  { agreeExcept_iff.mpr (without_change hi hr) with pc := target_without hi hr }

/-! ## One request -/

theorem without_without (m : Machine) (c : Component) : (m.without c).without c = m.without c := by
  cases c <;> rfl

theorem without_agree (m : Machine) (c : Component) : AgreeExcept c (m.without c) m :=
  agreeExcept_iff.mpr (without_without m c)

theorem result_step_without (hd : m.stack.depth ≤ stackFrames) (c : Component) :
    (m.without c).step.result = m.step.result := by
  have hd' : (m.without c).stack.depth ≤ stackFrames := (without_agree m c).stack ▸ hd
  rw [result_step hd', result_step hd, verdict_without]

theorem carried_without (hd : m.stack.depth ≤ stackFrames) (c : Component) (op : Operation) :
    (m.without c).carried op = m.carried op := by
  have hfetch : (m.without c).fetch = m.fetch := by
    rw [fetch, fetch, (without_agree m c).memory, (without_agree m c).pc]
  cases op with
  | step => simp only [carried, result_step_without hd c, hfetch]
  | _ => rfl

theorem step_without (hd : m.stack.depth ≤ stackFrames)
    (hr : ∀ w, m.carried .step = some w → ¬ w.Reads c) :
    AgreeExcept c (m.without c).step.machine m.step.machine := by
  have hd' : (m.without c).stack.depth ≤ stackFrames := (without_agree m c).stack ▸ hd
  have hverdict := verdict_without m c
  rcases step_cases hd with ⟨f, hv, -, -, hm⟩ | ⟨w, i, hv, hw, hi, -, -, hm⟩
  · rw [hm, (step_of_verdict_error hd' (hverdict.trans hv)).2]
    exact { without_agree m c with halted := rfl }
  · rw [hm, (step_of_verdict_ok hd' (hverdict.trans hv)).2]
    exact after_without hi (hr w hw)

theorem load_without (m : Machine) (c : Component) (image : List UInt8) :
    ((m.without c).load image).result = (m.load image).result ∧
      AgreeExcept c ((m.without c).load image).machine (m.load image).machine := by
  have hmemory : (m.without c).memory = m.memory := (without_agree m c).memory
  unfold load
  rw [hmemory]
  cases m.memory.load image with
  | ok memory => exact ⟨rfl, { without_agree m c with memory := rfl }⟩
  | error f => exact ⟨rfl, without_agree m c⟩

theorem tick_without (m : Machine) (c : Component) (ticks : UInt8) :
    AgreeExcept c ((m.without c).tick ticks) (m.tick ticks) := by
  have h := without_agree m c
  exact { h with
    delay := fun hc => congrArg (·.elapse ticks) (h.delay hc)
    sound := fun hc => congrArg (·.elapse ticks) (h.sound hc) }

theorem setKey_without (m : Machine) (c : Component) (key : Nat) (pressed : Bool) :
    ((m.without c).setKey key pressed).result = (m.setKey key pressed).result ∧
      AgreeExcept c ((m.without c).setKey key pressed).machine (m.setKey key pressed).machine := by
  have h := without_agree m c
  unfold setKey Keypad.set
  by_cases hkey : key < keyCount
  · rw [dif_pos hkey, dif_pos hkey]
    exact ⟨rfl, { h with keypad := fun hc => by rw [h.keypad hc] }⟩
  · rw [dif_neg hkey, dif_neg hkey]
    exact ⟨rfl, h⟩

theorem perform_without (hd : m.stack.depth ≤ stackFrames) {op : Operation}
    (hr : ∀ w, m.carried op = some w → ¬ w.Reads c) :
    ((m.without c).perform op).result = (m.perform op).result ∧
      AgreeExcept c ((m.without c).perform op).machine (m.perform op).machine := by
  cases op with
  | load image => exact load_without m c image
  | step => exact ⟨result_step_without hd c, step_without hd hr⟩
  | tick ticks => exact ⟨rfl, tick_without m c ticks⟩
  | setKey key pressed => exact setKey_without m c key pressed

/-! ## Pairs of machines -/

section

variable {m₁ m₂ : Machine}

theorem perform_agree (hd : m₁.stack.depth ≤ stackFrames) (h : AgreeExcept c m₁ m₂) {op : Operation}
    (hr : ∀ w, m₁.carried op = some w → ¬ w.Reads c) :
    (m₁.perform op).result = (m₂.perform op).result ∧
      AgreeExcept c (m₁.perform op).machine (m₂.perform op).machine := by
  have hd₂ : m₂.stack.depth ≤ stackFrames := h.stack ▸ hd
  have hwithout := agreeExcept_iff.mp h
  -- the other machine carries out the same word
  have hr₂ : ∀ w, m₂.carried op = some w → ¬ w.Reads c := by
    intro w hw
    rw [← carried_without hd₂ c, ← hwithout, carried_without hd] at hw
    exact hr w hw
  obtain ⟨hresult₁, hm₁⟩ := perform_without hd hr
  obtain ⟨hresult₂, hm₂⟩ := perform_without hd₂ hr₂
  rw [hwithout] at hresult₁ hm₁
  exact ⟨hresult₁.symm.trans hresult₂,
    agreeExcept_iff.mpr ((agreeExcept_iff.mp hm₁).symm.trans (agreeExcept_iff.mp hm₂))⟩

/-- Two machines that agree on everything but one component give the same results to every list of
requests, and agree on everything but that component after each of them, as long as no word that is
carried out reads it. -/
theorem noninterference (c : Component) (m₁ m₂ : Machine) (hd : m₁.stack.depth ≤ 16)
    (h : AgreeExcept c m₁ m₂) (ops : List Operation) (hr : ∀ e ∈ m₁.executed ops, ¬ e.2.Reads c) :
    List.Forall₂ (fun r₁ r₂ => r₁.result = r₂.result ∧ AgreeExcept c r₁.machine r₂.machine)
      (m₁.replies ops) (m₂.replies ops) := by
  induction ops generalizing m₁ m₂ with
  | nil => exact .nil
  | cons op rest ih =>
    obtain ⟨hfirst, hrest⟩ := forall_executed_cons.mp hr
    have hstep := perform_agree hd h hfirst
    exact .cons hstep (ih _ _ (depth_le_perform hd op) hstep.2 hrest)

/-- Loads a program that shifts a register in place, sets the delay timer and then returns from no call,
and runs it with a tick and a key between. -/
def shiftInPlaceRun : List Operation :=
  [.load [0x61, 0x07, 0x81, 0x16, 0xF1, 0x15, 0x00, 0xEE], .step, .step, .tick 1, .setKey 16 true, .step,
    .step]

/-- The dialects cannot be told apart by a shift of a register into itself. -/
theorem noninterference_shift_in_place :
    let m₁ := new .classic (.ofSeed 0)
    let m₂ := new .modern (.ofSeed 0)
    m₁.stack.depth ≤ 16 ∧ AgreeExcept .dialect m₁ m₂ ∧ m₁.dialect ≠ m₂.dialect ∧
      (m₁.executed shiftInPlaceRun).map Prod.snd = [0x6107, 0x8116, 0xF115] ∧
      (∀ e ∈ m₁.executed shiftInPlaceRun, ¬ e.2.Reads .dialect) ∧
      List.Forall₂ (fun r₁ r₂ => r₁.result = r₂.result ∧ AgreeExcept .dialect r₁.machine r₂.machine)
        (m₁.replies shiftInPlaceRun) (m₂.replies shiftInPlaceRun) := by
  intro m₁ m₂
  have hagree : AgreeExcept .dialect m₁ m₂ := agreeExcept_iff.mpr rfl
  have hwords : (m₁.executed shiftInPlaceRun).map Prod.snd = [0x6107, 0x8116, 0xF115] := by
    decide +kernel
  have hno : ∀ w ∈ [(0x6107 : Word), 0x8116, 0xF115], ¬ w.Reads .dialect := by
    rw [List.forall_mem_cons, List.forall_mem_cons, List.forall_mem_singleton]
    decide
  have hr : ∀ e ∈ m₁.executed shiftInPlaceRun, ¬ e.2.Reads .dialect := by
    intro e he
    exact hno e.2 (hwords ▸ List.mem_map_of_mem he)
  exact ⟨Nat.zero_le _, hagree, by decide, hwords, hr,
    noninterference .dialect m₁ m₂ (Nat.zero_le _) hagree _ hr⟩

end

end Machine
end Chip8
