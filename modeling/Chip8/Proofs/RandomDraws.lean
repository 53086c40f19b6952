import Chip8.Proofs.Footprint

/-!
# Random bytes are drawn in order

The stream of a machine is its key and how many bytes were drawn. Only the words `Cxkk` draw, one byte each,
and nothing else moves the stream; so the `k`-th of them in a run takes byte number `k` of the key, whatever
program runs and whatever else is asked of the machine. `Machine.draws` lists them, each with the machine that
it was fetched on.

* `random_perform_of_draw`, `random_perform_of_no_draw`: what one request does to the stream.
* `random_run`, `random_of_draws`: the stream after a run, and at each draw of it.
* `draws_in_order`: all of this from a seed.
-/
namespace Chip8.Machine

/-- The words `Cxkk` that a list of requests carries out, in order, each with the machine it was fetched on. -/
def draws (m : Machine) (ops : List Operation) : List (Machine × Word) :=
  (m.executed ops).filter fun e => decide (e.2.family = 0xC)

variable {m : Machine} {op : Operation} {w : Word}

/-! ## One request -/

theorem carried_eq_some (h : m.carried op = some w) : op = .step := by
  cases op with
  | step => rfl
  | _ => cases h

/-- A word `Cxkk` that is carried out puts the next byte, masked, and takes the stream one byte further. -/
theorem step_of_draw (hd : m.stack.depth ≤ stackFrames) (h : m.carried .step = some w)
    (hw : w.family = 0xC) :
    m.step.machine.random = m.random.advance ∧
      m.step.machine.registers.get w.x = m.random.next &&& w.kk := by
  rcases step_cases hd with ⟨f, -, hnone, -⟩ | ⟨w', i, -, hw', hi, -, -, hm⟩
  · rw [h] at hnone
    cases hnone
  · cases h.symm.trans hw'
    have hrow : (Instruction.random w.x w.kk).Row w := ⟨hw, rfl, rfl⟩
    have hsame : i = .random w.x w.kk := by
      have h₁ := Word.decode_ok_iff.mpr hi
      rw [Word.decode_ok_iff.mpr hrow] at h₁
      cases h₁
      rfl
    rw [hm, hsame]
    refine ⟨rfl, ?_⟩
    rw [registers_after]
    exact (Registers.get_set _ _ _ _).trans (if_pos rfl)

theorem random_perform_of_draw (hd : m.stack.depth ≤ stackFrames) (h : m.carried op = some w)
    (hw : w.family = 0xC) : (m.perform op).machine.random = m.random.advance := by
  obtain rfl := carried_eq_some h
  exact (step_of_draw hd h hw).1

/-- What carries out no word `Cxkk` leaves the stream where it is: every other instruction, a step that fails
or is refused, and every request that is no step. -/
theorem random_perform_of_no_draw (hd : m.stack.depth ≤ stackFrames)
    (h : ∀ w, m.carried op = some w → w.family ≠ 0xC) : (m.perform op).machine.random = m.random := by
  rcases perform_cases m op with rfl | ⟨_, _, _, _, hm⟩
  · rcases step_cases hd with ⟨f, -, -, -, hm⟩ | ⟨w, i, -, hw, -⟩
    · simp only [perform, hm]
    · by_contra hne
      exact h w hw ((footprint_step hd hw).random hne)
  · rw [hm]

/-! ## A run -/

theorem draws_cons_of_draw (h : m.carried op = some w) (hw : w.family = 0xC) (rest : List Operation) :
    m.draws (op :: rest) = (m, w) :: (m.perform op).machine.draws rest := by
  simp [draws, executed, h, hw]

theorem draws_cons_of_no_draw (h : ∀ w, m.carried op = some w → w.family ≠ 0xC)
    (rest : List Operation) : m.draws (op :: rest) = (m.perform op).machine.draws rest := by
  cases hc : m.carried op with
  | none => simp [draws, executed, hc]
  | some w => simp [draws, executed, hc, h w hc]

/-- A request draws or it does not. -/
theorem draw_or_not (m : Machine) (op : Operation) :
    (∃ w, m.carried op = some w ∧ w.family = 0xC) ∨ ∀ w, m.carried op = some w → w.family ≠ 0xC := by
  by_cases h : ∃ w, m.carried op = some w ∧ w.family = 0xC
  · exact .inl h
  · exact .inr fun w hw hf => h ⟨w, hw, hf⟩

/-- The stream after a run is as many bytes further as there were draws. -/
theorem random_run (hd : m.stack.depth ≤ stackFrames) (ops : List Operation) :
    (m.run ops).random = ⟨m.random.key, m.random.position + (m.draws ops).length⟩ := by
  induction ops generalizing m with
  | nil => rfl
  | cons op rest ih =>
    rw [run, ih (depth_le_perform hd op)]
    rcases draw_or_not m op with ⟨w, hw, hf⟩ | hno
    · rw [random_perform_of_draw hd hw hf, draws_cons_of_draw hw hf, List.length_cons]
      simp only [RandomStream.advance, Nat.add_assoc, Nat.add_comm 1]
    · rw [random_perform_of_no_draw hd hno, draws_cons_of_no_draw hno]

/-- Draw number `k` of a run finds the stream `k` bytes further. -/
theorem random_of_draws (hd : m.stack.depth ≤ stackFrames) {ops : List Operation} {k : Nat}
    {e : Machine × Word} (h : (m.draws ops)[k]? = some e) :
    e.1.random = ⟨m.random.key, m.random.position + k⟩ := by
  induction ops generalizing m k with
  | nil => simp [draws, executed] at h
  | cons op rest ih =>
    have hrest := depth_le_perform hd op
    rcases draw_or_not m op with ⟨w, hw, hf⟩ | hno
    · rw [draws_cons_of_draw hw hf] at h
      cases k with
      | zero =>
        cases h
        rfl
      | succ k =>
        rw [List.getElem?_cons_succ] at h
        rw [ih hrest h, random_perform_of_draw hd hw hf]
        simp only [RandomStream.advance, Nat.add_assoc, Nat.add_comm 1]
    · rw [draws_cons_of_no_draw hno] at h
      rw [ih hrest h, random_perform_of_no_draw hd hno]

/-- What a run lists as drawn is a word `Cxkk` that a step carried out, on a machine of the run. -/
theorem draws_carried (hd : m.stack.depth ≤ stackFrames) (ops : List Operation) :
    ∀ e ∈ m.draws ops, e.1.stack.depth ≤ stackFrames ∧ e.1.carried .step = some e.2 ∧ e.2.family = 0xC := by
  induction ops generalizing m with
  | nil => simp [draws, executed]
  | cons op rest ih =>
    have hrest := ih (depth_le_perform hd op)
    rcases draw_or_not m op with ⟨w, hw, hf⟩ | hno
    · rw [draws_cons_of_draw hw hf, List.forall_mem_cons]
      obtain rfl := carried_eq_some hw
      exact ⟨⟨hd, hw, hf⟩, hrest⟩
    · rw [draws_cons_of_no_draw hno]
      exact hrest

/-- From a seed, draw number `k` of every run puts byte number `k` of the seed, masked, into its register. A
request takes the stream one byte further exactly if it carries out a word `Cxkk`, so after the run it is as many
bytes further as there were draws; and machines of one seed draw the same bytes in order. -/
theorem draws_in_order (dialect : Dialect) (seed : UInt64) (ops : List Operation) :
    let m := new dialect (.ofSeed seed)
    let key := RandomStream.keyOfSeed seed
    (∀ k e, (m.draws ops)[k]? = some e → e.1.step.result = .ok () ∧
      e.1.step.machine.registers.get e.2.x = RandomStream.byteAt key k &&& e.2.kk) ∧
    (∀ past op, past ++ [op] <+: ops →
      let before := m.run past
      let after := (before.perform op).machine
      (∀ w, before.carried op = some w → w.family = 0xC → after.random = before.random.advance) ∧
      ((∀ w, before.carried op = some w → w.family ≠ 0xC) → after.random = before.random)) ∧
    (m.run ops).random = ⟨key, (m.draws ops).length⟩ ∧
    ∀ dialect' ops' k e e', (m.draws ops)[k]? = some e →
      ((new dialect' (.ofSeed seed)).draws ops')[k]? = some e' →
      e.1.random.next = RandomStream.byteAt key k ∧ e'.1.random.next = e.1.random.next := by
  intro m key
  have hd (dialect : Dialect) : (new dialect (.ofSeed seed)).stack.depth ≤ stackFrames := Nat.zero_le _
  have hstream (dialect : Dialect) (ops : List Operation) {k : Nat} {e : Machine × Word}
      (h : ((new dialect (.ofSeed seed)).draws ops)[k]? = some e) : e.1.random = ⟨key, k⟩ := by
    rw [random_of_draws (hd dialect) h]
    exact congrArg _ (Nat.zero_add k)
  refine ⟨?_, ?_, ?_, ?_⟩
  · intro k e h
    obtain ⟨hde, hcarried, hf⟩ := draws_carried (hd dialect) ops e (List.mem_of_getElem? h)
    refine ⟨(carried_step_iff.mp hcarried).1, ?_⟩
    rw [(step_of_draw hde hcarried hf).2, hstream dialect ops h]
    rfl
  · intro past op _ before after
    have hdb : before.stack.depth ≤ stackFrames := depth_le_run (hd dialect) past
    exact ⟨fun w hw hf => random_perform_of_draw hdb hw hf, random_perform_of_no_draw hdb⟩
  · rw [random_run (hd dialect) ops]
    exact congrArg _ (Nat.zero_add _)
  · intro dialect' ops' k e e' h h'
    rw [hstream dialect ops h, hstream dialect' ops' h']
    exact ⟨rfl, rfl⟩

/-- Draws at the second of two words, the first with a mask that keeps nothing. -/
def drawTwice : List Operation := [.load [0xC1, 0x00, 0xC2, 0xFF], .step, .tick 1, .step]

/-- Another program that draws twice, behind a step that does not and a key that does not exist. -/
def drawLater : List Operation :=
  [.load [0x60, 0x01, 0xC3, 0x0F, 0xC4, 0xF0], .step, .setKey 16 true, .step, .step]

theorem draws_in_order_second :
    let m := new .classic (.ofSeed 7)
    let m' := new .modern (.ofSeed 7)
    ∃ e e', (m.draws drawTwice)[1]? = some e ∧ e.2 = 0xC2FF ∧
      (m'.draws drawLater)[1]? = some e' ∧ e'.2 = 0xC4F0 ∧
      e.1.step.machine.registers.get 2 = 233 ∧
      e'.1.random.next = e.1.random.next ∧
      [] ++ [.load [0xC1, 0x00, 0xC2, 0xFF]] <+: drawTwice ∧
      (∀ w, m.carried (.load [0xC1, 0x00, 0xC2, 0xFF]) = some w → w.family ≠ 0xC) ∧
      (m.load [0xC1, 0x00, 0xC2, 0xFF]).machine.random = m.random := by
  have hwords :
      ((new .classic (.ofSeed 7)).draws drawTwice).map Prod.snd = [0xC100, 0xC2FF] ∧
        ((new .modern (.ofSeed 7)).draws drawLater).map Prod.snd = [0xC30F, 0xC4F0] := by
    decide +kernel
  have hsecond {es : List (Machine × Word)} {w w' : Word} (h : es.map Prod.snd = [w, w']) :
      ∃ e, es[1]? = some e ∧ e.2 = w' := by
    have h₁ := congrArg (·[1]?) h
    simpa using h₁
  obtain ⟨e, he, hw⟩ := hsecond hwords.1
  obtain ⟨e', he', hw'⟩ := hsecond hwords.2
  have hprefix : [] ++ [Operation.load [0xC1, 0x00, 0xC2, 0xFF]] <+: drawTwice := ⟨_, rfl⟩
  have hno : ∀ w, (new .classic (.ofSeed 7)).carried (.load [0xC1, 0x00, 0xC2, 0xFF]) = some w →
      w.family ≠ 0xC := fun w h => by cases h
  have hbyte : RandomStream.byteAt (RandomStream.keyOfSeed 7) 1 = 233 := by decide +kernel
  obtain ⟨hput, hrequest, -, hsame⟩ := draws_in_order .classic 7 drawTwice
  have hdrawn : e.1.step.machine.registers.get 2 = 233 := by
    have hget := (hput 1 e he).2
    rw [hbyte, hw] at hget
    exact hget
  exact ⟨e, e', he, hw, he', hw', hdrawn, (hsame .modern drawLater 1 e e' he he').2, hprefix, hno,
    (hrequest [] _ hprefix).2 hno⟩

end Chip8.Machine
