import Chip8.Console.Run
import Chip8.Proofs.Overlay
import Chip8.Proofs.Playing
import Mathlib.Data.List.Forall2

/-!
# Headless runs

A run that does not wait and has a limit of frames, from its command line to the number it ends with. Every value
that a command line can put in force is one that the machine takes (`Options.ofArguments_fits`), so an image that
fits is loaded, the keys are held down (`boot_eq`), and the frames follow the schedule.

* `Plan.Performs`: which requests the machine gets, in which frame they end, and what the run writes and ends with.
* `run_performs`, `headless_run_follows_schedule`: every such run comes to this.
-/
namespace Chip8

theorem Text.natural?_lt {base bound : Nat} {cs : List Char} {n : Nat}
    (h : natural? base bound cs = some n) : n < bound := by
  unfold natural? at h
  split at h
  · cases h
  · exact of_decide_eq_true (Option.filter_eq_some_iff.mp h).2

/-- Reading a list is reading its elements one by one. -/
theorem mapM_eq_some_iff {α β : Type} {f : α → Option β} {l : List α} {l' : List β} :
    l.mapM f = some l' ↔ List.Forall₂ (fun a b => f a = some b) l l' := by
  induction l generalizing l' with
  | nil => simp [eq_comm]
  | cons a rest ih =>
    rw [List.mapM_cons]
    constructor
    · intro h
      obtain ⟨b, hb, h⟩ := Option.bind_eq_some_iff.mp h
      obtain ⟨bs, hbs, h⟩ := Option.bind_eq_some_iff.mp h
      cases h
      exact .cons hb (ih.mp hbs)
    · rintro (_ | ⟨hb, hbs⟩)
      rw [hb, ih.mpr hbs]
      rfl

namespace Console

/-! ## What a command line can ask for -/

theorem keys?_lt {list : String} {keys : List Nat} (h : keys? list = some keys) :
    ∀ key ∈ keys, key < keyCount := by
  rw [keys?, mapM_eq_some_iff] at h
  intro key hkey
  obtain ⟨k, hk, rfl⟩ := List.mem_iff_getElem.mp hkey
  exact Text.natural?_lt (h.get (h.length_eq ▸ hk) hk)

namespace Options

theorem number_eq_some {α : Type} {a : Arguments} {o : ValueOption} {read : List Char → Option α} {n : α}
    (h : number a o read = .ok (some n)) : ∃ cs, read cs = some n := by
  unfold number at h
  split at h
  · cases h
  · split at h
    · cases h
      exact ⟨_, ‹_›⟩
    · cases h

theorem heldKeys_lt {a : Arguments} {keys : List Nat} (h : heldKeys a = .ok keys) :
    ∀ key ∈ keys, key < keyCount := by
  unfold heldKeys at h
  split at h
  · cases h
    simp
  · split at h
    · cases h
      exact keys?_lt ‹_›
    · cases h

/-- The keys exist, and the frames can be counted. -/
theorem ofArguments_fits {a : Arguments} {o : Options} (h : ofArguments a = .ok o) :
    (∀ key ∈ o.keys, key < keyCount) ∧ ∀ limit, o.frames = some limit → limit < frameLimit := by
  obtain ⟨rate, -, h⟩ := bind_eq_ok h
  obtain ⟨decay, -, h⟩ := bind_eq_ok h
  obtain ⟨keys, hkeys, h⟩ := bind_eq_ok h
  obtain ⟨frames, hframes, h⟩ := bind_eq_ok h
  obtain ⟨seed, -, h⟩ := bind_eq_ok h
  cases h
  refine ⟨heldKeys_lt hkeys, fun limit hlimit => ?_⟩
  cases (hlimit : frames = some limit)
  obtain ⟨cs, hcs⟩ := number_eq_some hframes
  exact Text.natural?_lt hcs

end Options

theorem plan_options {arguments : List String} {logSpec : Option String} {p : Plan}
    (h : plan arguments logSpec = .ok p) : ∃ a, Options.ofArguments a = .ok p.options := by
  unfold plan at h
  dsimp only at h
  split at h
  · cases h
  · cases h
  · cases h
  · split at h
    · cases h
    · cases h
      exact ⟨_, ‹_›⟩

/-! ## Loading and holding keys -/

/-- What happens to a machine before the first frame. -/
def bootOps (image : List UInt8) (keys : List Nat) : List Operation :=
  .load image :: keys.map (.setKey · true)

/-- The machine of a plan before the first frame. -/
def Plan.machine (p : Plan) (entropy : RandomStream) (image : List UInt8) : Machine :=
  (Machine.new p.options.dialect ((p.options.seed.map RandomStream.ofSeed).getD entropy)).run
    (bootOps image p.options.keys)

theorem Plan.machine_depth_le (p : Plan) (entropy : RandomStream) (image : List UInt8) :
    (p.machine entropy image).stack.depth ≤ stackFrames :=
  Machine.depth_le_run (Nat.zero_le _) _

theorem Plan.machine_running (p : Plan) (entropy : RandomStream) (image : List UInt8) :
    (p.machine entropy image).halted = false := by
  refine (Machine.inert_run_of_no_step ?_).halted
  simp [bootOps, Operation.isStep]

namespace Session

theorem holdKeys_eq (s : Session) {keys : List Nat} (h : ∀ key ∈ keys, key < keyCount) :
    holdKeys s.volume keys s = .ok () (s.asked (keys.map (.setKey · true))) := by
  induction keys generalizing s with
  | nil => rfl
  | cons key rest ih =>
    obtain ⟨hkey, hrest⟩ := List.forall_mem_cons.mp h
    have hresult : (s.machine.perform (.setKey key true)).result = .ok () := by
      simp [Machine.perform, Machine.setKey, Keypad.set, hkey]
    have hpress : request s.volume (·.setKey key true) s = _ := request_perform s (.setKey key true)
    rw [holdKeys, bind_apply, hpress, hresult]
    exact (ih (s.asked [.setKey key true]) hrest).trans (congrArg _ (asked_append s [_] _).symm)

/-- An image that fits is loaded, and keys that exist are held down. -/
theorem boot_eq (s : Session) {image : List UInt8} (himage : image.length ≤ maxImageSize)
    (hkeys : ∀ key ∈ s.options.keys, key < keyCount) :
    boot image s =
      report .info s!"running {s.options.image} ({image.length} bytes) at {s.options.rate} cycles/s"
        (s.asked (bootOps image s.options.keys)) := by
  have hresult : (s.machine.perform (.load image)).result = .ok () := by
    simp [Machine.perform, Machine.load, Memory.load, himage]
  have hload : request s.volume (·.load image) s = _ := request_perform s (.load image)
  have hhold : holdKeys s.volume (s.asked [.load image]).options.keys (s.asked [.load image]) =
      .ok () (s.asked (bootOps image s.options.keys)) :=
    (holdKeys_eq (s.asked [.load image]) hkeys).trans (congrArg _ (asked_append s [_] _).symm)
  have hvolume : machineVolume s = .ok s.volume s := rfl
  rw [boot, bind_apply, hvolume]
  dsimp only
  rw [bind_apply, hload, hresult]
  dsimp only
  rw [bind_apply, get_apply]
  dsimp only
  rw [bind_apply, hhold]
  rfl

/-- A headless session is ready when it has booted. -/
theorem ready_of_boot {p : Plan} {image : List UInt8} {limit : Nat} (entropy : RandomStream)
    (hheadless : p.options.headless = true) (hlimit : p.options.frames = some limit)
    (hfits : limit < frameLimit) (hrate : p.options.rate ≤ second) (himage : image.length ≤ maxImageSize)
    (hkeys : ∀ key ∈ p.options.keys, key < keyCount) :
    ∃ start, boot image (p.session entropy) = .ok () start ∧ start.Ready limit ∧
      start.options = p.options ∧ start.machine = p.machine entropy image ∧ start.output = #[] := by
  refine ⟨_, boot_eq (p.session entropy) himage hkeys, ?_, rfl, rfl, rfl⟩
  exact ⟨hheadless, hrate, hlimit, hfits, rfl, rfl⟩

/-- What a session writes that ends by itself and is not live. -/
theorem output_of_plays {start last : Session} {n done : Nat} {ops : List Operation} {fault : Option Fault}
    (h : start.Plays last n ops done fault) (hlive : start.options.live = false)
    (houtput : start.output = #[]) : last.close.output.toList = [(start.machine.run ops).screen.text] := by
  obtain ⟨shown, -, hshown⟩ := h.follows.output
  simp only [pictures, hlive, houtput, Bool.false_eq_true, if_false] at hshown
  simp [close, h.follows.options, hlive, h.follows.machine, hshown]

end Session

/-- What a run with a limit of `n` frames comes to: the machine of the plan gets certain requests, `done` frames
are complete, and a fault ends the run or none does. -/
structure Plan.Performs (p : Plan) (entropy : RandomStream) (image : List UInt8) (n : Nat)
    (transcript : Transcript) (ops : List Operation) (done : Nat) (fault : Option Fault) : Prop where
  course : (p.machine entropy image).Course p.options.rate n ops done fault
  /-- The session that booted goes this way, and the transcript is that of the session it leaves. -/
  session : ∃ start last, Session.boot image (p.session entropy) = .ok () start ∧
    start.options = p.options ∧ start.machine = p.machine entropy image ∧ start.frames = 0 ∧
    start.Plays last n ops done fault ∧ transcript = p.conclude (Session.finish (last.ended fault))
  exitCode : transcript.outcome.exitCode = if fault = none then 0 else 1
  output : p.options.live = false →
    transcript.output = ((p.machine entropy image).run ops).screen.text

section

variable {arguments : List String} {logSpec : Option String} {p : Plan}
  {readImage : String → Except String (List UInt8)} {image : List UInt8}

theorem run_eq_play (hplan : plan arguments logSpec = .ok p) (himage : readImage p.options.image = .ok image)
    (entropy : RandomStream) : run arguments logSpec readImage entropy = p.play entropy image := by
  unfold run
  rw [hplan]
  dsimp only
  rw [himage]

/-- How the machine goes decides how the run goes. -/
theorem performs_of_course (hplan : plan arguments logSpec = .ok p) (hheadless : p.options.headless = true)
    {limit : Nat} (hlimit : p.options.frames = some limit) (hrate : p.options.rate ≤ second)
    (himage : readImage p.options.image = .ok image) (hsize : image.length ≤ maxImageSize)
    {entropy : RandomStream} {ops : List Operation} {done : Nat} {fault : Option Fault}
    (hcourse : (p.machine entropy image).Course p.options.rate (max limit 1) ops done fault) :
    p.Performs entropy image (max limit 1) (run arguments logSpec readImage entropy) ops done fault := by
  obtain ⟨a, ha⟩ := plan_options hplan
  obtain ⟨hkeys, hlimits⟩ := Options.ofArguments_fits ha
  have hfits : limit < frameLimit := hlimits limit hlimit
  obtain ⟨start, hboot, hready, hoptions, hmachine, houtput⟩ :=
    Session.ready_of_boot entropy hheadless hlimit hfits hrate hsize hkeys
  obtain ⟨last, hplays⟩ : ∃ last, start.Plays last (max limit 1) ops done fault :=
    Session.plays_of_course hready (hmachine ▸ hoptions ▸ hcourse)
  have hrun : run arguments logSpec readImage entropy =
      p.conclude (Session.finish (last.ended fault)) := by
    have hbound : max limit 1 ≤ frameLimit := Nat.max_le.mpr ⟨Nat.le_of_lt hfits, by decide⟩
    rw [run_eq_play hplan himage, Plan.play, hboot]
    dsimp only
    rw [Session.play_eq, hplays.ends _ hbound]
  have hwritten (hlive : p.options.live = false) :
      String.join last.close.output.toList = ((p.machine entropy image).run ops).screen.text := by
    rw [Session.output_of_plays hplays (hoptions ▸ hlive) houtput, hmachine]
    simp
  refine ⟨hcourse, ⟨start, last, hboot, hoptions, hmachine, hready.frames, hplays, hrun⟩, ?_, ?_⟩
  · rw [hrun]
    cases fault <;> rfl
  · rw [hrun]
    cases fault <;> exact hwritten

/-- A limit of no frames still lets one be played. -/
theorem run_performs (hplan : plan arguments logSpec = .ok p) (hheadless : p.options.headless = true)
    {limit : Nat} (hlimit : p.options.frames = some limit) (hrate : p.options.rate ≤ second)
    (himage : readImage p.options.image = .ok image) (hsize : image.length ≤ maxImageSize)
    (entropy : RandomStream) :
    ∃ ops done fault,
      p.Performs entropy image (max limit 1) (run arguments logSpec readImage entropy) ops done fault := by
  obtain ⟨ops, done, fault, hcourse⟩ := Machine.course_exists (p.machine_depth_le entropy image)
    (p.machine_running entropy image) p.options.rate (max limit 1)
  exact ⟨ops, done, fault, performs_of_course hplan hheadless hlimit hrate himage hsize hcourse⟩

end

/-- A run that does not wait makes the requests of the schedule, frame by frame, until its limit or the first step
that fails, and ends with 0 or 1. If it is not live it writes the last screen. -/
theorem headless_run_follows_schedule (arguments : List String) (logSpec : Option String)
    (readImage : String → Except String (List UInt8)) (entropy : RandomStream) {p : Plan}
    {image : List UInt8} {n : Nat} (hplan : plan arguments logSpec = .ok p)
    (hheadless : p.options.headless = true) (hframes : p.options.frames = some n) (hn : 1 ≤ n)
    (hrate : p.options.rate ≤ 1000000000) (himage : readImage p.options.image = .ok image)
    (hsize : image.length ≤ 3584) :
    ∃ ops done fault,
      p.Performs entropy image n (run arguments logSpec readImage entropy) ops done fault := by
  have hperforms := run_performs hplan hheadless hframes hrate himage hsize entropy
  rwa [Nat.max_eq_left hn] at hperforms

/-- A program that puts a constant and draws one sprite after the other. -/
def drawForever : List UInt8 := [0x60, 0x05, 0xD0, 0x05, 0x12, 0x02]

theorem headless_run_follows_schedule_two_frames :
    let arguments := ["--headless", "-n", "2", "--keys", "5,a", "--seed=7", "rom"]
    let readImage (_ : String) : Except String (List UInt8) := .ok drawForever
    ∃ p, plan arguments none = .ok p ∧ p.options.headless = true ∧ p.options.frames = some 2 ∧
      p.options.rate ≤ 1000000000 ∧ readImage p.options.image = .ok drawForever ∧
      drawForever.length ≤ 3584 ∧
      ∃ ops done fault, p.Performs (.ofSeed 0) drawForever 2
        (run arguments none readImage (.ofSeed 0)) ops done fault := by
  intro arguments readImage
  obtain ⟨p, hplan, hheadless, hframes, hrate⟩ : ∃ p, plan arguments none = .ok p ∧
      p.options.headless = true ∧ p.options.frames = some 2 ∧ p.options.rate = 500 :=
    ⟨_, rfl, rfl, rfl, rfl⟩
  have hslow : p.options.rate ≤ 1000000000 := by omega
  have hsize : drawForever.length ≤ 3584 := by decide
  refine ⟨p, hplan, hheadless, hframes, hslow, rfl, hsize, ?_⟩
  exact headless_run_follows_schedule arguments none readImage (.ofSeed 0) hplan hheadless hframes (by decide)
    hslow rfl hsize

end Console
end Chip8
