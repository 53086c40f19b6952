import Chip8.Proofs.Diagnostics
import Mathlib.Data.List.Forall2

/-!
# The call stack is the list of its live frames

A pop leaves its address behind in a frame that is no longer in use, and a later push writes over it. Neither can be
told from a list of at most sixteen addresses that grows and shrinks at one end (`Lifo`). In the same way machines
whose stacks have the same live frames cannot be told apart, whatever their other frames hold: only calls and returns
touch the stack, and they keep stacks of the same live frames that way.

* `report_eq`: a stack and a list answer alike, request after request.
* `DifferInDeadFrames`: machines that differ in frames which are not in use.
* `perform_sameLive`: one request to two such machines.
* `dead_frames_unobservable`: lists of requests to stacks, and to machines.
-/
namespace Chip8

/-! ## Stacks and lists -/

/-- A request to a stack. -/
inductive StackRequest where
  | push (address : UInt16)
  | pop
  deriving DecidableEq, Repr

/-- What a request to a stack shows: its result, with the address that a pop gives back, and the depth and the text of
the stack after it. -/
structure StackReport where
  result : Except Stop (Option UInt16)
  depth : Nat
  text : String
  deriving DecidableEq

namespace CallStack

/-- Carries a request out. A stack that refuses it stays as it is. -/
def perform (s : CallStack) : StackRequest → Except Stop (Option UInt16) × CallStack
  | .push address => match s.push address with
    | .ok s' => (.ok none, s')
    | .error e => (.error e, s)
  | .pop => match s.pop with
    | .ok (address, s') => (.ok (some address), s')
    | .error e => (.error e, s)

/-- What a list of requests shows. -/
def report (s : CallStack) : List StackRequest → List StackReport
  | [] => []
  | r :: rest =>
    let (result, s) := s.perform r
    ⟨result, s.depth, s.text⟩ :: s.report rest

end CallStack

/-- At most sixteen addresses, the oldest first. -/
structure Lifo where
  addresses : List UInt16
  bounded : addresses.length ≤ 16

namespace Lifo

def empty : Lifo := ⟨[], Nat.zero_le _⟩

/-- One more address, if there is room. -/
def append (l : Lifo) (address : UInt16) (h : l.addresses.length ≠ 16) : Lifo where
  addresses := l.addresses ++ [address]
  bounded := by
    have hle := l.bounded
    rw [List.length_append, List.length_singleton]
    omega

/-- All addresses but the latest. -/
def dropLast (l : Lifo) : Lifo where
  addresses := l.addresses.dropLast
  bounded := by
    rw [List.length_dropLast]
    exact Nat.le_trans (Nat.sub_le _ _) l.bounded

/-- A push appends, a pop takes the last address off; a list that is full or empty refuses and stays as it is. -/
def perform (l : Lifo) : StackRequest → Except Stop (Option UInt16) × Lifo
  | .push address =>
    if h : l.addresses.length = 16 then (.error (.fault .stackOverflow), l) else (.ok none, l.append address h)
  | .pop => match l.addresses.getLast? with
    | none => (.error (.fault .stackUnderflow), l)
    | some address => (.ok (some address), l.dropLast)

/-- The number of addresses, and each of them as four digits in quotes. -/
def text (l : Lifo) : String :=
  "Stack \x7b sp: " ++ toString l.addresses.length ++ ", frames: [" ++
    ", ".intercalate (l.addresses.map fun a => "\"" ++ Text.hexWord a ++ "\"") ++ "] \x7d"

/-- What a list of requests shows. -/
def report (l : Lifo) : List StackRequest → List StackReport
  | [] => []
  | r :: rest =>
    let (result, l) := l.perform r
    ⟨result, l.addresses.length, l.text⟩ :: l.report rest

end Lifo

namespace CallStack

/-- A stack in bounds whose live frames are the addresses of a list. -/
def Shows (s : CallStack) (l : Lifo) : Prop := s.depth ≤ stackFrames ∧ s.live = l.addresses

variable {s s' : CallStack} {l : Lifo}

theorem Shows.depth_eq (h : s.Shows l) : s.depth = l.addresses.length := by
  rw [← h.2, length_live h.1]

theorem Shows.text_eq (h : s.Shows l) : s.text = l.text := by
  rw [text, h.depth_eq, h.2]
  rfl

theorem Shows.perform (h : s.Shows l) (r : StackRequest) :
    (s.perform r).1 = (l.perform r).1 ∧ (s.perform r).2.Shows (l.perform r).2 := by
  have hdepth := h.depth_eq
  cases r with
  | push address =>
    simp only [CallStack.perform, Lifo.perform, push_eq _ _ h.1]
    by_cases hfull : s.depth = stackFrames
    · have hlen : l.addresses.length = 16 := hdepth.symm.trans hfull
      rw [if_pos hfull, dif_pos hlen]
      exact ⟨rfl, h⟩
    · have hlen : ¬ l.addresses.length = 16 := fun hlen => hfull (hdepth.trans hlen)
      have hlt : s.depth < stackFrames := Nat.lt_of_le_of_ne h.1 hfull
      have hpushed : (s.grow address).live = l.addresses ++ [address] := by rw [live_grow hlt, h.2]
      rw [if_neg hfull, dif_neg hlen]
      exact ⟨rfl, hlt, hpushed⟩
  | pop =>
    simp only [CallStack.perform, Lifo.perform, pop_eq _ h.1]
    by_cases hempty : s.depth = 0
    · have hnone : l.addresses.getLast? = none := by
        rw [List.getLast?_eq_none_iff, ← List.length_eq_zero_iff, ← hdepth, hempty]
      rw [if_pos hempty, hnone]
      exact ⟨rfl, h⟩
    · have hlast : l.addresses = s.shrink.live ++ [s.top] := h.2.symm.trans (live_eq_append_top h.1 hempty)
      have hsome : l.addresses.getLast? = some s.top := by rw [hlast, List.getLast?_concat]
      rw [if_neg hempty, hsome]
      have hrest : s.shrink.live = l.addresses.dropLast := by rw [hlast, List.dropLast_concat]
      exact ⟨rfl, Nat.le_trans (Nat.sub_le _ _) h.1, hrest⟩

/-- A stack answers a list of requests as the list of its live frames does. -/
theorem Shows.report_eq (h : s.Shows l) (requests : List StackRequest) : s.report requests = l.report requests := by
  induction requests generalizing s l with
  | nil => rfl
  | cons r rest ih =>
    obtain ⟨hresult, hnext⟩ := h.perform r
    simp only [CallStack.report, Lifo.report, hresult, hnext.depth_eq, hnext.text_eq, ih hnext]

theorem shows_empty : empty.Shows .empty := ⟨Nat.zero_le _, rfl⟩

/-! ## Stacks of the same live frames -/

/-- Stacks in bounds with the same live frames. -/
def SameLive (s s' : CallStack) : Prop := s.depth ≤ stackFrames ∧ s.depth = s'.depth ∧ s.live = s'.live

theorem getElem?_live {i : Nat} (h : i < stackFrames) (hi : i < s.depth) : s.live[i]? = some s.frames[i] := by
  rw [live, List.getElem?_take_of_lt hi, Vector.getElem?_toList, Vector.getElem?_eq_getElem h]

theorem sameLive_iff (hd : s.depth ≤ stackFrames) :
    s.SameLive s' ↔
      s.depth = s'.depth ∧ ∀ i, (h : i < stackFrames) → i < s.depth → s.frames[i] = s'.frames[i] := by
  constructor
  · rintro ⟨-, hdepth, hlive⟩
    refine ⟨hdepth, fun i h hi => ?_⟩
    have hi' : i < s'.depth := hdepth ▸ hi
    rw [← Option.some_inj, ← getElem?_live h hi, ← getElem?_live h hi', hlive]
  · rintro ⟨hdepth, hframes⟩
    refine ⟨hd, hdepth, List.ext_getElem? fun i => ?_⟩
    by_cases hi : i < s.depth
    · have h : i < stackFrames := Nat.lt_of_lt_of_le hi hd
      rw [getElem?_live h hi, getElem?_live h (hdepth ▸ hi), hframes i h hi]
    · have hi' : ¬ i < s'.depth := hdepth ▸ hi
      rw [live, live, List.getElem?_take, List.getElem?_take, if_neg hi, if_neg hi']

theorem SameLive.shrink (h : s.SameLive s') (h0 : s.depth ≠ 0) : s.shrink.SameLive s'.shrink ∧ s.top = s'.top := by
  obtain ⟨hd, hdepth, hlive⟩ := h
  have hd' : s'.depth ≤ stackFrames := hdepth ▸ hd
  have h0' : s'.depth ≠ 0 := hdepth ▸ h0
  obtain ⟨hrest, htop⟩ : s.shrink.live = s'.shrink.live ∧ [s.top] = [s'.top] := by
    refine List.append_inj' ?_ rfl
    rw [← live_eq_append_top hd h0, ← live_eq_append_top hd' h0', hlive]
  exact ⟨⟨Nat.le_trans (Nat.sub_le _ _) hd, congrArg (· - 1) hdepth, hrest⟩, List.head_eq_of_cons_eq htop⟩

theorem SameLive.grow (h : s.SameLive s') (hlt : s.depth < stackFrames) (address : UInt16) :
    (s.grow address).SameLive (s'.grow address) :=
  ⟨hlt, congrArg (· + 1) h.2.1, by rw [live_grow hlt, live_grow (h.2.1 ▸ hlt), h.2.2]⟩

end CallStack

/-! ## Machines -/

/-- What can be seen of a machine: the value of each accessor, and the diagnostic text. -/
structure View where
  pc : UInt16
  index : UInt16
  depth : Nat
  registers : Registers
  delay : UInt8
  sound : UInt8
  memory : Memory
  screen : Screen
  dialect : Dialect
  halted : Bool
  beeping : Bool
  text : String
  deriving DecidableEq

namespace Machine

/-- What can be seen of a machine. -/
def view (m : Machine) : View where
  pc := m.pc
  index := m.index
  depth := m.stack.depth
  registers := m.registers
  delay := m.delay.left
  sound := m.sound.left
  memory := m.memory
  screen := m.screen
  dialect := m.dialect
  halted := m.halted
  beeping := m.beeping
  text := m.snapshot.text

/-- Machines that differ at most in frames which are not in use. -/
structure DifferInDeadFrames (m₁ m₂ : Machine) : Prop where
  others : { m₁ with stack := m₂.stack } = m₂
  depth : m₁.stack.depth = m₂.stack.depth
  frames : ∀ i, (h : i < stackFrames) → i < m₁.stack.depth → m₁.stack.frames[i] = m₂.stack.frames[i]

end Machine

/-- Replies that cannot be told apart. -/
def Reply.Alike (r₁ r₂ : Reply) : Prop :=
  r₁.result = r₂.result ∧ r₁.records = r₂.records ∧ r₁.machine.view = r₂.machine.view

namespace Machine

open CallStack (SameLive)

variable {m : Machine} {s : CallStack}

theorem differInDeadFrames_iff {m' : Machine} (hd : m.stack.depth ≤ stackFrames) :
    m.DifferInDeadFrames m' ↔ ∃ s, m.stack.SameLive s ∧ m' = { m with stack := s } := by
  constructor
  · rintro ⟨hothers, hdepth, hframes⟩
    exact ⟨m'.stack, (CallStack.sameLive_iff hd).mpr ⟨hdepth, hframes⟩, hothers.symm⟩
  · rintro ⟨s, hs, rfl⟩
    obtain ⟨hdepth, hframes⟩ := (CallStack.sameLive_iff hd).mp hs
    exact ⟨rfl, hdepth, hframes⟩

theorem view_sameLive (h : m.stack.SameLive s) : { m with stack := s }.view = m.view := by
  simp only [view, snapshot, ← h.2.1, ← h.2.2]
  rfl

theorem fault?_sameLive (h : m.stack.SameLive s) (i : Instruction) :
    i.fault? { m with stack := s } = i.fault? m := by
  cases i with
  | ret => simp only [Instruction.fault?, h.2.1]
  | call address => simp only [Instruction.fault?, h.2.1]
  | _ => rfl

theorem verdict_sameLive (h : m.stack.SameLive s) : { m with stack := s }.verdict = m.verdict := by
  simp only [verdict, fault?_sameLive h]
  rfl

theorem account_sameLive (h : m.stack.SameLive s) : { m with stack := s }.account = m.account := by
  have hsnapshot : { m with stack := s }.snapshot = m.snapshot := by
    simp only [snapshot, h.2.1, h.2.2]
  simp only [account, failing, fault?_sameLive h, hsnapshot]
  rfl

/-- Only a call and a return read the stack or change it, and of that only what is live. -/
theorem after_sameLive (h : m.stack.SameLive s) {i : Instruction} (hf : i.fault? m = none) :
    ∃ s', (m.after i).stack.SameLive s' ∧ { m with stack := s }.after i = { m.after i with stack := s' } := by
  cases i with
  | ret =>
    obtain ⟨hshrink, htop⟩ := h.shrink (Instruction.fault?_ret_eq_none_iff.mp hf)
    refine ⟨s.shrink, hshrink, ?_⟩
    simp only [after, Instruction.change, Instruction.target, htop]
  | call address =>
    have hlt := Nat.lt_of_le_of_ne h.1 (Instruction.fault?_call_eq_none_iff.mp hf)
    exact ⟨s.grow (m.pc + 2), h.grow hlt _, rfl⟩
  | awaitKey x =>
    simp only [after, Instruction.change_awaitKey]
    exact ⟨s, h, rfl⟩
  | _ => exact ⟨s, h, rfl⟩

theorem step_sameLive (h : m.stack.SameLive s) :
    let r := m.step
    let r' := { m with stack := s }.step
    ∃ s', r.machine.stack.SameLive s' ∧ r'.machine = { r.machine with stack := s' } ∧
      r'.events = r.events ∧ r'.result = r.result := by
  intro r r'
  have hd' : { m with stack := s }.stack.depth ≤ stackFrames := h.2.1 ▸ h.1
  have hverdict := verdict_sameLive h
  have hevents : r'.events = r.events := by
    rw [events_step hd', events_step h.1, account_sameLive h]
  have hresult : r'.result = r.result := by
    rw [result_step hd', result_step h.1, hverdict]
  rcases step_cases h.1 with ⟨f, hv, -, -, hm⟩ | ⟨w, i, hv, -, -, hf, -, hm⟩
  · rw [hm, (step_of_verdict_error hd' (hverdict.trans hv)).2]
    exact ⟨s, h, rfl, hevents, hresult⟩
  · obtain ⟨s', hs', hafter⟩ := after_sameLive h hf
    rw [hm, (step_of_verdict_ok hd' (hverdict.trans hv)).2]
    exact ⟨s', hs', hafter, hevents, hresult⟩

/-- One request to machines of the same live frames is answered alike and leaves such machines. -/
theorem perform_sameLive (h : m.stack.SameLive s) (op : Operation) :
    let r := m.perform op
    let r' := { m with stack := s }.perform op
    ∃ s', r.machine.stack.SameLive s' ∧ r'.machine = { r.machine with stack := s' } ∧
      r'.events = r.events ∧ r'.result = r.result := by
  cases op with
  | load image =>
    simp only [perform, load]
    cases m.memory.load image <;> exact ⟨s, h, rfl, rfl, rfl⟩
  | step => exact step_sameLive h
  | tick ticks => exact ⟨s, h, rfl, rfl, rfl⟩
  | setKey key pressed =>
    simp only [perform, setKey]
    cases m.keypad.set key pressed <;> exact ⟨s, h, rfl, rfl, rfl⟩

theorem replies_sameLive (h : m.stack.SameLive s) (ops : List Operation) :
    List.Forall₂ Reply.Alike (m.replies ops) ({ m with stack := s }.replies ops) := by
  induction ops generalizing m s with
  | nil => exact .nil
  | cons op rest ih =>
    obtain ⟨s', hs', hmachine, hevents, hresult⟩ := perform_sameLive h op
    have hrecords : ({ m with stack := s }.perform op).records = (m.perform op).records := by
      rw [Reply.records, Reply.records, hevents]
    have hview : ({ m with stack := s }.perform op).machine.view = (m.perform op).machine.view := by
      rw [hmachine, view_sameLive hs']
    refine .cons ⟨hresult.symm, hrecords.symm, hview.symm⟩ ?_
    rw [hmachine]
    exact ih hs'

/-- A new stack answers every list of requests as the empty list does. And what a frame that is not in use holds
shows neither in what can be seen of a machine nor in what any further requests are answered. -/
theorem dead_frames_unobservable :
    (∀ requests, CallStack.empty.report requests = Lifo.empty.report requests) ∧
      ∀ m₁ m₂ : Machine, m₁.stack.depth ≤ 16 → m₁.DifferInDeadFrames m₂ →
        m₁.view = m₂.view ∧ ∀ ops, List.Forall₂ Reply.Alike (m₁.replies ops) (m₂.replies ops) := by
  refine ⟨CallStack.shows_empty.report_eq, ?_⟩
  intro m₁ m₂ hd hdiffer
  obtain ⟨s, hs, rfl⟩ := (differInDeadFrames_iff hd).mp hdiffer
  exact ⟨(view_sameLive hs).symm, replies_sameLive hs⟩

/-- A machine about to call a routine from another one, with an address left behind in the frame that the call will
use. Both routines return, and there is one more return than there are calls. -/
def insideRoutine (leftover : UInt16) : Machine :=
  { new .classic (.ofSeed 0) with
    memory := Memory.blank.overlay imageStart [0x22, 0x04, 0x00, 0xEE, 0x00, 0xEE]
    stack := ⟨#v[0x202, leftover, 0, 0, 0, 0, 0, 0, 0, 0, 0, 0, 0, 0, 0, 0], 1⟩ }

/-- Steps to the return from no call, with requests of every other kind between. -/
def outOfRoutine : List Operation :=
  [.step, .tick 3, .step, .setKey 16 true, .step, .step, .load [0x12, 0x00], .step]

theorem insideRoutine_differInDeadFrames (leftover leftover' : UInt16) :
    (insideRoutine leftover).DifferInDeadFrames (insideRoutine leftover') := by
  refine ⟨rfl, rfl, ?_⟩
  intro i h hi
  obtain rfl : i = 0 := Nat.lt_one_iff.mp hi
  rfl

theorem dead_frames_unobservable_leftover :
    (insideRoutine 0).stack.depth ≤ 16 ∧ (insideRoutine 0).stack ≠ (insideRoutine 0xABC).stack ∧
      (insideRoutine 0).DifferInDeadFrames (insideRoutine 0xABC) ∧
      (insideRoutine 0).view = (insideRoutine 0xABC).view ∧
      List.Forall₂ Reply.Alike ((insideRoutine 0).replies outOfRoutine)
        ((insideRoutine 0xABC).replies outOfRoutine) ∧
      ((insideRoutine 0).run (outOfRoutine.take 3)).pc = 0x202 ∧
      CallStack.empty.report [.push 0x204, .pop, .pop] =
        [⟨.ok none, 1, "Stack \x7b sp: 1, frames: [\"0204\"] \x7d"⟩,
          ⟨.ok (some 0x204), 0, "Stack \x7b sp: 0, frames: [] \x7d"⟩,
          ⟨.error (.fault .stackUnderflow), 0, "Stack \x7b sp: 0, frames: [] \x7d"⟩] := by
  have hd : (insideRoutine 0).stack.depth ≤ 16 := by decide
  have hdiffer := insideRoutine_differInDeadFrames 0 0xABC
  obtain ⟨hview, hreplies⟩ := dead_frames_unobservable.2 _ _ hd hdiffer
  refine ⟨hd, by decide, hdiffer, hview, hreplies outOfRoutine, by decide +kernel, ?_⟩
  rw [dead_frames_unobservable.1]
  decide +kernel

end Machine
end Chip8
