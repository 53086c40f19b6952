import Chip8.Proofs.Schedule

/-!
# Playing follows the schedule

A session makes requests to its machine, collects the records of what the machine says, writes pictures and
counts frames. `Session.Follows` says all of this of two sessions by the requests that lie between them.

* `execute_of_succeeds`, `execute_of_fails`: the instructions of a frame.
* `frame_of_succeeds`, `frame_of_fails`: a frame completes, or ends with the instruction that failed.
* `After.frame_succeeds`, `After.frame_fails`: the same for the next frame of a session on schedule.
* `frameLoop_again`: the frame loop before its last frame.
* `plays_of_course`: the loop goes the way that the machine's course says, and ends whatever its bound.
-/
namespace Chip8

section

variable {ε σ : Type}

theorem FrameLoop.run_succ (frame : EStateM ε σ Signal) (bound : Nat) (s : σ) :
    run frame (bound + 1) s = match frame s with
      | .ok .again s' => run frame bound s'
      | .ok .finished s' => .ok .finished s'
      | .error e s' => .error e s' := by
  rw [run, bind_apply]
  rcases frame s with ⟨_ | _, _⟩ | _ <;> rfl

/-- A frame loop stopped by its bound goes on where it was. -/
theorem FrameLoop.run_add_of_again {frame : EStateM ε σ Signal} {a : Nat} {s s' : σ}
    (h : run frame a s = .ok .again s') (b : Nat) : run frame (a + b) s = run frame b s' := by
  induction a generalizing s with
  | zero =>
    cases h
    rw [Nat.zero_add]
  | succ a ih =>
    rw [run_succ] at h
    rw [Nat.succ_add, run_succ]
    rcases hframe : frame s with ⟨_ | _, s₁⟩ | _ <;> rw [hframe] at h
    · exact ih h
    · cases h
    · cases h

end

namespace Machine

/-- What a machine says during a list of requests. -/
def trail (m : Machine) (ops : List Operation) : List Event := (m.replies ops).flatMap Reply.events

theorem trail_append (m : Machine) (ops ops' : List Operation) :
    m.trail (ops ++ ops') = m.trail ops ++ (m.run ops).trail ops' := by
  induction ops generalizing m with
  | nil => rfl
  | cons op rest ih =>
    have hrest := ih (m.perform op).machine
    simp only [trail, replies, run, List.cons_append, List.flatMap_cons, List.append_assoc] at hrest ⊢
    rw [hrest]

theorem trail_ticks (m : Machine) (n : Nat) : m.trail (List.replicate n (.tick 1)) = [] := by
  induction n generalizing m with
  | zero => rfl
  | succ n ih => exact ih _

end Machine

namespace Console.Session

/-- What the machine may say in a session. -/
abbrev volume (s : Session) : Volume := s.filter.volume machineSource

/-- What the log is after requests to the machine. -/
def logAfter (s : Session) (ops : List Operation) : Array Record :=
  collect s.filter s.volume s.log (s.machine.trail ops)

/-- The session after requests to its machine. -/
def asked (s : Session) (ops : List Operation) : Session :=
  { s with machine := s.machine.run ops, log := s.logAfter ops }

theorem logAfter_append (s : Session) (ops ops' : List Operation) :
    s.logAfter (ops ++ ops') = (s.asked ops).logAfter ops' := by
  rw [logAfter, Machine.trail_append]
  exact List.foldl_append

theorem asked_append (s : Session) (ops ops' : List Operation) :
    s.asked (ops ++ ops') = (s.asked ops).asked ops' := by
  simp only [asked, Machine.run_append, logAfter_append]

/-! ## Requests -/

theorem request_perform (s : Session) (op : Operation) :
    request s.volume (·.perform op) s = match (s.machine.perform op).result with
      | .ok () => .ok () (s.asked [op])
      | .error e => .error e (s.asked [op]) := by
  have hasked : s.asked [op] = { s with
      machine := (s.machine.perform op).machine
      log := collect s.filter s.volume s.log (s.machine.perform op).events } := by
    simp [asked, logAfter, Machine.run, Machine.trail, Machine.replies]
  rw [hasked]
  rfl

theorem execute_succ (s : Session) (n : Nat) :
    execute s.volume (n + 1) s = match s.machine.step.result with
      | .ok () => execute s.volume n (s.asked [.step])
      | .error e => .error e (s.asked [.step]) := by
  have hstep : request s.volume Machine.step s = _ := request_perform s .step
  rw [execute, bind_apply, hstep, Machine.perform]
  cases s.machine.step.result <;> rfl

theorem execute_of_succeeds {s : Session} {n : Nat} (h : s.machine.Succeeds (List.replicate n .step)) :
    execute s.volume n s = .ok () (s.asked (List.replicate n .step)) := by
  induction n generalizing s with
  | zero => rfl
  | succ n ih =>
    obtain ⟨hfirst, hrest⟩ := Machine.succeeds_append_iff.mp (show s.machine.Succeeds ([.step] ++ _) from h)
    have hok : s.machine.step.result = .ok () := hfirst.1 _ (List.mem_singleton.mpr rfl)
    rw [execute_succ, hok]
    exact (ih (s := s.asked [.step]) hrest).trans (congrArg _ (asked_append s [.step] _).symm)

theorem execute_of_fails {s : Session} {n j : Nat} {e : Stop} (hj : j < n)
    (h : s.machine.Succeeds (List.replicate j .step))
    (he : (s.machine.run (List.replicate j .step)).step.result = .error e) :
    execute s.volume n s = .error e (s.asked (List.replicate (j + 1) .step)) := by
  induction j generalizing s n with
  | zero =>
    have hfails : s.machine.step.result = .error e := he
    obtain ⟨n, rfl⟩ := Nat.exists_eq_succ_of_ne_zero (Nat.ne_zero_of_lt hj)
    rw [execute_succ, hfails]
    rfl
  | succ j ih =>
    obtain ⟨n, rfl⟩ := Nat.exists_eq_succ_of_ne_zero (Nat.ne_zero_of_lt hj)
    obtain ⟨hfirst, hrest⟩ := Machine.succeeds_append_iff.mp (show s.machine.Succeeds ([.step] ++ _) from h)
    have hok : s.machine.step.result = .ok () := hfirst.1 _ (List.mem_singleton.mpr rfl)
    rw [execute_succ, hok]
    refine (ih (s := s.asked [.step]) (Nat.lt_of_succ_lt_succ hj) hrest he).trans ?_
    exact congrArg _ (asked_append s [.step] _).symm

/-! ## One frame -/

theorem tickTimes_eq (n : Nat) (m : Machine) : tickTimes n m = m.run (List.replicate n (.tick 1)) := by
  induction n generalizing m with
  | zero => rfl
  | succ n ih => exact ih _

theorem asked_ticks (s : Session) (n : Nat) :
    s.asked (List.replicate n (.tick 1)) = { s with machine := tickTimes n s.machine } := by
  rw [asked, logAfter, Machine.trail_ticks, tickTimes_eq]
  rfl

/-- What a session writes of the afterglows it shows. -/
def pictures (s : Session) (shown : List Afterglow) : List String :=
  if s.options.live then shown.map (clearTerminal ++ ·.text) else []

/-- From one session to the next certain requests were made to the machine and a number of frames completed.
A live session showed an afterglow for each of these frames. -/
structure Follows (s s' : Session) (ops : List Operation) (done : Nat) : Prop where
  options : s'.options = s.options
  filter : s'.filter = s.filter
  machine : s'.machine = s.machine.run ops
  log : s'.log = s.logAfter ops
  frames : s'.frames = s.frames + done
  output : ∃ shown : List Afterglow,
    shown.length = done ∧ s'.output.toList = s.output.toList ++ s.pictures shown

variable {s s' s'' : Session}

theorem follows_asked (s : Session) (ops : List Operation) : s.Follows (s.asked ops) ops 0 where
  options := rfl
  filter := rfl
  machine := rfl
  log := rfl
  frames := rfl
  output := ⟨[], rfl, by simp [pictures, asked]⟩

theorem Follows.refl (s : Session) : s.Follows s [] 0 := follows_asked s []

theorem Follows.of_tempo {tempo : Tempo} {ops : List Operation} {done : Nat}
    (h : ({ s with tempo := tempo } : Session).Follows s' ops done) : s.Follows s' ops done :=
  ⟨h.options, h.filter, h.machine, h.log, h.frames, h.output⟩

theorem Follows.trans {ops ops' : List Operation} {done done' : Nat} (h : s.Follows s' ops done)
    (h' : s'.Follows s'' ops' done') : s.Follows s'' (ops ++ ops') (done + done') where
  options := h'.options.trans h.options
  filter := h'.filter.trans h.filter
  machine := by rw [h'.machine, h.machine, Machine.run_append]
  log := by
    rw [h'.log, logAfter_append]
    simp only [logAfter, volume, asked, h.filter, h.machine, h.log]
  frames := by rw [h'.frames, h.frames, Nat.add_assoc]
  output := by
    obtain ⟨shown, hlength, houtput⟩ := h.output
    obtain ⟨shown', hlength', houtput'⟩ := h'.output
    refine ⟨shown ++ shown', by rw [List.length_append, hlength, hlength'], ?_⟩
    rw [houtput', houtput, List.append_assoc]
    simp only [pictures, h.options]
    split <;> simp

theorem allow_apply (s : Session) (time : Nat) : allow time s = match s.tempo.elapse time with
    | .ok (allowance, tempo) => .ok allowance { s with tempo := tempo }
    | .error crash => .error (.crash crash) s := by
  rw [allow, bind_apply, get_apply]
  dsimp only
  cases s.tempo.elapse time <;> rfl

theorem update_apply (s : Session) (time : Nat) : update time s = match allow time s with
    | .error e s₁ => .error e s₁
    | .ok allowance s₁ => match execute s₁.volume allowance.cycles s₁ with
      | .error e s₂ => .error e s₂
      | .ok () s₂ =>
        let ticked := tickTimes allowance.ticks s₂.machine
        let afterglow := s₂.afterglow.update ticked.screen (secondsOfNanos time)
        .ok () { s₂ with machine := ticked, afterglow := afterglow } := by
  rw [update, bind_apply]
  cases allow time s with
  | error e s₁ => rfl
  | ok allowance s₁ =>
    have hvolume : machineVolume s₁ = .ok s₁.volume s₁ := rfl
    dsimp only
    rw [bind_apply, hvolume]
    dsimp only
    rw [bind_apply]
    cases execute s₁.volume allowance.cycles s₁ <;> rfl

theorem draw_apply (s : Session) : draw s = .ok () { s with
    output := if s.options.live then s.output.push (clearTerminal ++ s.afterglow.text) else s.output } := by
  have hdraw : draw s = .ok () (if s.options.live then
      { s with output := s.output.push (clearTerminal ++ s.afterglow.text) } else s) := rfl
  rw [hdraw]
  split <;> rfl

theorem count_apply {limit : Nat} (hlimit : s.options.frames = some limit)
    (hcount : s.frames + 1 < frameLimit) :
    count s = .ok (if limit ≤ s.frames + 1 then .finished else .again)
      { s with frames := s.frames + 1 } := by
  rw [count, bind_apply, get_apply]
  dsimp only
  rw [if_neg (Nat.not_le.mpr hcount), bind_apply, modify_apply]
  dsimp only
  rw [bind_apply, get_apply]
  dsimp only
  rw [hlimit]
  rfl

section

variable {time : Nat} {allowance : Allowance} {s₁ : Session}

theorem update_of_succeeds (hallow : allow time s = .ok allowance s₁)
    (h : s₁.machine.Succeeds (List.replicate allowance.cycles .step)) :
    update time s = .ok () { s₁.asked allowance.ops with
      afterglow := s₁.afterglow.update (s₁.machine.run allowance.ops).screen (secondsOfNanos time) } := by
  rw [update_apply, hallow]
  dsimp only
  rw [execute_of_succeeds h, Allowance.ops, asked_append, asked_ticks, Machine.run_append, ← tickTimes_eq]
  rfl

theorem frame_of_succeeds {limit : Nat} (hallow : allow time s = .ok allowance s₁)
    (hlimit : s₁.options.frames = some limit) (hcount : s₁.frames + 1 < frameLimit)
    (h : s₁.machine.Succeeds (List.replicate allowance.cycles .step)) :
    ∃ s', frame time s = .ok (if limit ≤ s₁.frames + 1 then .finished else .again) s' ∧
      s₁.Follows s' allowance.ops 1 ∧ s'.tempo = s₁.tempo := by
  let shown := s₁.afterglow.update (s₁.machine.run allowance.ops).screen (secondsOfNanos time)
  let drawn : Session := { s₁.asked allowance.ops with
    afterglow := shown
    output := if s₁.options.live then s₁.output.push (clearTerminal ++ shown.text) else s₁.output }
  refine ⟨{ drawn with frames := s₁.frames + 1 }, ?_, ?_, rfl⟩
  · rw [frame, bind_apply, update_of_succeeds hallow h]
    dsimp only
    rw [bind_apply, draw_apply]
    exact count_apply (s := drawn) hlimit hcount
  · refine ⟨rfl, rfl, rfl, rfl, rfl, [shown], rfl, ?_⟩
    simp only [drawn, pictures]
    split <;> simp

theorem frame_of_fails {j : Nat} {e : Stop} (hallow : allow time s = .ok allowance s₁)
    (hj : j < allowance.cycles) (h : s₁.machine.Succeeds (List.replicate j .step))
    (he : (s₁.machine.run (List.replicate j .step)).step.result = .error e) :
    frame time s = .error e (s₁.asked (List.replicate (j + 1) .step)) := by
  rw [frame, bind_apply, update_apply, hallow]
  dsimp only
  rw [execute_of_fails hj h he]

end

/-! ## The frame loop -/

/-- A frame that lasts as long as it is taken to last. -/
def nextFrame : EStateM Stop Session Signal := fun s => frame s.elapsed s

/-- The frames of a session, at most as many as a bound allows. -/
def frameLoop (bound : Nat) : EStateM Stop Session Signal := FrameLoop.run nextFrame bound

theorem play_eq (s : Session) : s.play = finish (frameLoop frameLimit s) := rfl

/-- A session that does not wait, with a rate that can be kept and a limit of frames, before its first frame. -/
structure Ready (s : Session) (limit : Nat) : Prop where
  headless : s.options.headless = true
  rate : s.options.rate ≤ second
  stops : s.options.frames = some limit
  fits : limit < frameLimit
  tempo : s.tempo = .ofRate s.options.rate
  frames : s.frames = 0

/-- A session after `k` complete frames of another. -/
structure After (start : Session) (k : Nat) (s : Session) : Prop where
  follows : start.Follows s (firstFrames start.options.rate k) k
  tempo : s.tempo = .afterFrames start.options.rate k

/-- What the frame loop answers if it ends by itself. -/
def ended (s : Session) : Option Fault → EStateM.Result Stop Session Signal
  | none => .ok .finished s
  | some f => .error (.fault f) s

/-- The frame loop of a session makes certain requests to its machine, completes a number of its `n` frames, and
leaves `last`, ended by a fault or by itself. -/
structure Plays (start last : Session) (n : Nat) (ops : List Operation) (done : Nat) (fault : Option Fault) :
    Prop where
  /-- The loop comes by the end of every complete frame but the last. -/
  between : ∀ k < n, k ≤ done → ∃ s, frameLoop k start = .ok .again s ∧ start.After k s
  /-- It ends by itself, if the bound leaves it the frames of its limit. -/
  ends : ∀ bound, n ≤ bound → frameLoop bound start = last.ended fault
  follows : start.Follows last ops done

section

variable {start : Session} {limit k : Nat}

theorem After.zero (h : start.Ready limit) : start.After 0 start :=
  ⟨.refl start, by rw [h.tempo, Tempo.afterFrames_zero]⟩

/-- The next frame gets what the schedule says. -/
theorem After.allow (h : start.Ready limit) (hs : start.After k s) :
    s.allow s.elapsed = .ok (frameAllowance start.options.rate (k + 1))
      { s with tempo := .afterFrames start.options.rate (k + 1) } := by
  have helapsed : s.elapsed = frameTime := by
    rw [elapsed, hs.follows.options, h.headless]
    rfl
  rw [helapsed, allow_apply, hs.tempo, Tempo.elapse_nominal h.rate]

theorem After.frames (h : start.Ready limit) (hs : start.After k s) : s.frames = k := by
  rw [hs.follows.frames, h.frames, Nat.zero_add]

/-- If its instructions succeed, the next frame completes. -/
theorem After.frame_succeeds (h : start.Ready limit) (hs : start.After k s) (hk : k < max limit 1)
    (hsteps : (start.machine.run (firstFrames start.options.rate k)).Succeeds
      (List.replicate (stepsIn start.options.rate (k + 1)) .step)) :
    ∃ s', nextFrame s = .ok (if limit ≤ k + 1 then .finished else .again) s' ∧
      start.After (k + 1) s' := by
  have hframes : s.frames = k := hs.frames h
  -- the counter has room for the limit, and for the one frame that is played if that is none
  have hcount : s.frames + 1 < frameLimit := by
    have hfits := h.fits
    have hlimit : 2 < frameLimit := by decide
    omega
  rw [← hs.follows.machine] at hsteps
  obtain ⟨s', hframe, hfollows, htempo⟩ := frame_of_succeeds (hs.allow h)
    (hs.follows.options ▸ h.stops) hcount hsteps
  rw [hframes] at hframe
  refine ⟨s', hframe, ?_, htempo⟩
  rw [firstFrames_succ]
  exact hs.follows.trans hfollows.of_tempo

/-- If one of its instructions fails, the next frame ends with it. -/
theorem After.frame_fails {j : Nat} {f : Fault} (h : start.Ready limit) (hs : start.After k s)
    (hj : j < stepsIn start.options.rate (k + 1))
    (hsteps : (start.machine.run (firstFrames start.options.rate k)).Succeeds (List.replicate j .step))
    (hf : ((start.machine.run (firstFrames start.options.rate k)).run (List.replicate j .step)).step.result =
      .error (.fault f)) :
    ∃ s', nextFrame s = .error (.fault f) s' ∧
      start.Follows s' (firstFrames start.options.rate k ++ List.replicate (j + 1) .step) k := by
  rw [← hs.follows.machine] at hsteps hf
  exact ⟨_, frame_of_fails (hs.allow h) hj hsteps hf, hs.follows.trans (follows_asked _ _).of_tempo⟩

/-- As long as the instructions succeed, the frame loop completes frames. -/
theorem frameLoop_again (h : start.Ready limit) (hk : k < max limit 1)
    (hok : start.machine.Succeeds (firstFrames start.options.rate k)) :
    ∃ s, frameLoop k start = .ok .again s ∧ start.After k s := by
  induction k with
  | zero => exact ⟨start, rfl, .zero h⟩
  | succ k ih =>
    rw [firstFrames_succ] at hok
    obtain ⟨hbefore, hnext⟩ := Machine.succeeds_append_iff.mp hok
    obtain ⟨s, hloop, hs⟩ := ih (Nat.lt_of_succ_lt hk) hbefore
    obtain ⟨s', hframe, hs'⟩ := hs.frame_succeeds h (Nat.lt_of_succ_lt hk)
      (Machine.succeeds_append_iff.mp hnext).1
    refine ⟨s', ?_, hs'⟩
    rw [if_neg (by omega)] at hframe
    rw [frameLoop, FrameLoop.run_add_of_again hloop, FrameLoop.run_succ nextFrame 0, hframe]
    rfl

/-- The frame loop of a session goes the way that its machine goes. -/
theorem plays_of_course (h : start.Ready limit) {ops : List Operation} {done : Nat} {fault : Option Fault}
    (hcourse : start.machine.Course start.options.rate (max limit 1) ops done fault) :
    ∃ last, start.Plays last (max limit 1) ops done fault := by
  have hbetween (done : Nat) (hok : start.machine.Succeeds (firstFrames start.options.rate done)) (k : Nat)
      (hk : k < max limit 1) (hle : k ≤ done) : ∃ s, frameLoop k start = .ok .again s ∧ start.After k s :=
    frameLoop_again h hk (hok.of_prefix (firstFrames_prefix_of_le _ hle))
  cases hcourse with
  | complete hok =>
    -- the loop comes to the last frame, which then says that it was
    obtain ⟨p, hp⟩ : ∃ p, max limit 1 = p + 1 := ⟨max limit 1 - 1, by omega⟩
    have hlast := hok
    rw [hp, firstFrames_succ, Machine.succeeds_append_iff] at hlast
    obtain ⟨s, hloop, hs⟩ := frameLoop_again h (by omega) hlast.1
    obtain ⟨s', hframe, hs'⟩ := hs.frame_succeeds h (by omega) (Machine.succeeds_append_iff.mp hlast.2).1
    rw [if_pos (by omega)] at hframe
    refine ⟨s', hbetween _ hok, fun bound hbound => ?_, hp ▸ hs'.follows⟩
    obtain ⟨rest, rfl⟩ : ∃ rest, bound = p + (rest + 1) := ⟨bound - (p + 1), by omega⟩
    rw [frameLoop, FrameLoop.run_add_of_again hloop, FrameLoop.run_succ, hframe]
    rfl
  | cut hk hj hok hf =>
    have hparts := Machine.succeeds_append_iff.mp hok
    obtain ⟨s, hloop, hs⟩ := frameLoop_again h hk hparts.1
    obtain ⟨s', hframe, hfollows⟩ := hs.frame_fails h hj hparts.2 (Machine.run_append .. ▸ hf)
    refine ⟨s', hbetween _ hparts.1, fun bound hbound => ?_, hfollows⟩
    obtain ⟨rest, rfl⟩ := Nat.exists_eq_add_of_lt (Nat.lt_of_lt_of_le hk hbound)
    rw [frameLoop, Nat.add_assoc, FrameLoop.run_add_of_again hloop, FrameLoop.run_succ, hframe]
    rfl

end

end Console.Session
end Chip8
