import Mathlib.Data.List.Perm.Subperm
import RtCharger.Lib.SerialBits
import RtCharger.Os.Task

namespace RtCharger.Devices.Ws2812

open StepSystem SerialBits RtCharger.Os.Post RtCharger.Os.Task

/-!
# The strip of lights

Any thread changes the pixels of the frame at any time, and `flush` has the frame sent by the
thread of a `Task`, pixel after pixel, while others go on changing it.  A bit is a pulse, whose
length tells its value, with the interrupts disabled; each light takes the first 24 bits that reach
it and passes on the others.

* `writePixel`, `step` — the functions of the source, and the threads;
* `latch`, `latch_frame` — what the lights make of the pulses: they show the frame that was sent;
* `Shows`, `Shows.step` — what is known as long as every change is flushed;
* `strip_shows` — once nothing is under way the lights show the frame as it is.
-/

/-! ### The functions of the source -/

/-- `Colors::Rgb`. -/
structure Rgb where
  r : UInt8
  g : UInt8
  b : UInt8
deriving DecidableEq, Repr

/-- One pulse: for how many instructions the line is high, and low behind it. -/
structure Pulse where
  high : Nat
  low : Nat
deriving DecidableEq, Repr

/-- `Ws2812::writeBit`. -/
def writeBit (value : Bool) : Pulse := if value then ⟨31, 6⟩ else ⟨10, 23⟩

/-- `Ws2812::writeByte`: the highest bit first. -/
def writeByte (b : UInt8) : List Pulse :=
  (List.range 8).reverse.map fun i => writeBit (b.toNat &&& 1 <<< i != 0)

/-- `Ws2812::writePixel`. -/
def writePixel (pixel : Rgb) : List Pulse :=
  writeByte pixel.r ++ writeByte pixel.g ++ writeByte pixel.b

/-- The functions that the task executes: the one of `Ws2812::flush`, and those of others. -/
inductive Job where
  | flush
  | other
deriving DecidableEq, Repr

/-! ### The lights -/

/-- A bit is set if the line is high for longer than it is low. -/
def Pulse.bit (p : Pulse) : Bool := decide (p.low < p.high)

/-- The byte of eight pulses. -/
def ofPulses (ps : List Pulse) : UInt8 := ofBits (ps.map Pulse.bit).reverse

/-- What the lights show after some pulses: each takes the first 24 and passes on the others, and
    those that are not reached stay as they are. -/
def latch : List Rgb → List Pulse → List Rgb
  | [], _       => []
  | c :: cs, ps =>
    if 24 ≤ ps.length then
      ⟨ofPulses (ps.take 8), ofPulses ((ps.drop 8).take 8), ofPulses ((ps.drop 16).take 8)⟩
        :: latch cs (ps.drop 24)
    else c :: cs

@[simp]
theorem length_writeByte (b : UInt8) : (writeByte b).length = 8 := by simp [writeByte]

@[simp]
theorem length_writePixel (pixel : Rgb) : (writePixel pixel).length = 24 := by simp [writePixel]

theorem bit_writeBit (value : Bool) : (writeBit value).bit = value := by
  cases value <;> rfl

/-- **A byte is read as it was written.** -/
theorem ofPulses_writeByte (b : UInt8) : ofPulses (writeByte b) = b := by
  have hbits : ((writeByte b).map Pulse.bit).reverse = bitsOf b := by
    rw [writeByte, List.map_map, ← List.map_reverse, List.reverse_reverse]
    refine List.map_congr_left fun i _ => ?_
    show (writeBit _).bit = _
    rw [bit_writeBit, and_shift_ne_zero]
  rw [ofPulses, hbits, ofBits_bitsOf]

/-- The lights take no notice of how many they are. -/
theorem length_latch (shown : List Rgb) (ps : List Pulse) :
    (latch shown ps).length = shown.length := by
  induction shown generalizing ps with
  | nil => rfl
  | cons c cs ih =>
    unfold latch
    split_ifs
    · rw [List.length_cons, List.length_cons, ih]
    · rfl

/-- The first light. -/
theorem latch_pixel (c pixel : Rgb) (cs : List Rgb) (ps : List Pulse) :
    latch (c :: cs) (writePixel pixel ++ ps) = pixel :: latch cs ps := by
  have hr : (writePixel pixel ++ ps).take 8 = writeByte pixel.r := by
    simp [writePixel]
  have hg : ((writePixel pixel ++ ps).drop 8).take 8 = writeByte pixel.g := by
    simp [writePixel]
  have hb : ((writePixel pixel ++ ps).drop 16).take 8 = writeByte pixel.b := by
    simp [writePixel, List.take_append, List.drop_append]
  have hrest : (writePixel pixel ++ ps).drop 24 = ps := by
    rw [List.drop_append_of_le_length (by simp), List.drop_of_length_le (by simp)]
    rfl
  rw [latch, if_pos (by simp), hr, hg, hb, hrest]
  simp only [ofPulses_writeByte]

/-- **The lights show the frame that was sent.** -/
theorem latch_frame {shown frame : List Rgb} (h : shown.length = frame.length) :
    latch shown (frame.flatMap writePixel) = frame := by
  induction frame generalizing shown with
  | nil => rw [List.length_eq_zero_iff.mp h, latch]
  | cons pixel frame ih =>
    obtain ⟨c, cs, rfl⟩ := List.exists_cons_of_length_eq_add_one h
    rw [List.flatMap_cons, latch_pixel, ih (by simpa using h)]

/-! ### The threads -/

/-- The task, the frame, how far `flush` is, the pulses since `reset`, and what the lights show.
    `flushed` tells whether `flush` was called since the frame was changed. -/
structure State (Tid : Type) where
  task : Os.Post.State Tid (Tid × Job)
  frame : List Rgb
  sending : Option Nat
  line : List Pulse
  shown : List Rgb
  flushed : Bool

inductive Action (Tid : Type) where
  /-- A step of the task, or of a thread in `Task::exec`. -/
  | task (a : Act Tid (Tid × Job))
  /-- The thread of the task itself calls `flush`. -/
  | flush
  /-- The next round of the loop in `flush`. -/
  | pixel
  /-- A pixel is changed, or a part of it. -/
  | change (i : Nat) (c : Rgb)
deriving DecidableEq, Repr

section Functions

variable {Tid : Type} [DecidableEq Tid]

/-- `flush` begins, with `reset`. -/
def State.begin (s : State Tid) : State Tid := { s with sending := some 0, line := [] }

/-- The job that `invoke` is about to call. -/
def State.next (self : Tid) (s : State Tid) : Option Job :=
  s.task.front.bind fun d => (s.task.invoke self d).1.map fun c => c.args.2

/-- A step of the task; it waits for `flush` to end. -/
def State.work (self : Tid) (s : State Tid) (a : Act Tid (Tid × Job)) : Option (State Tid) :=
  (Os.Post.step self s.task a).bind fun task =>
    match a with
    | .push _ _ (_, .flush) => some { s with task, flushed := true }
    | .invoke               =>
      if s.sending = none then
        some (if s.next self = some .flush then { s with task }.begin else { s with task })
      else none
    | .pop                  => if s.sending = none then some { s with task } else none
    | _                     => some { s with task }

/-- The `for` loop of `flush`. -/
def State.loop (s : State Tid) : Option (State Tid) :=
  s.sending.map fun i =>
    match s.frame[i]? with
    | some pixel => { s with sending := some (i + 1), line := s.line ++ writePixel pixel }
    | none       => { s with sending := none, shown := latch s.shown s.line }

def step (self : Tid) (s : State Tid) : Action Tid → Option (State Tid)
  | .task a     => s.work self a
  | .flush      => if s.sending = none then some { s.begin with flushed := true } else none
  | .pixel      => s.loop
  | .change i c => some { s with frame := s.frame.set i c, flushed := false }

/-- The calls of `Task::exec` come from other threads. -/
def Ok (self : Tid) (s : State Tid) : Action Tid → Prop
  | .task a => Execs self s.task a
  | _       => True

instance (self : Tid) (s : State Tid) : (a : Action Tid) → Decidable (Ok self s a)
  | .task a     => inferInstanceAs (Decidable (Execs self s.task a))
  | .flush      => isTrue trivial
  | .pixel      => isTrue trivial
  | .change _ _ => isTrue trivial

/-- The constructor; the lights show anything. -/
def initial (Tid : Type) (frame shown : List Rgb) : State Tid :=
  ⟨Os.Post.initial Tid (Tid × Job), frame, none, [], shown, false⟩

end Functions

/-! ### What is known while every change is flushed -/

section Runs

variable {Tid : Type} [DecidableEq Tid] {self : Tid} {s s' : State Tid}

/-- How many of the functions are those of `flush`. -/
def flushes (cs : List (Context (Tid × Job))) : Nat := cs.countP fun c => c.args.2 == Job.flush

/-- `flush` has yet to be called, or is under way and has sent the frame so far as it is, or the
    lights show the frame. -/
structure Shows (owner : Tid) (s : State Tid) : Prop where
  paired : Paired s.task
  logged : Logged owner s.task
  inOrder : InOrder s.task
  length : s.shown.length = s.frame.length
  fresh : s.flushed = true → flushes s.task.calls < flushes s.task.pushed ∨
    (∃ i, s.sending = some i ∧ s.line = (s.frame.take i).flatMap writePixel) ∨
    s.sending = none ∧ s.shown = s.frame

/-- No function is called that was not posted. -/
theorem flushes_le (h : InOrder s.task) : flushes s.task.calls ≤ flushes s.task.pushed := by
  rw [flushes, flushes, ← h.perm.countP_eq, List.countP_append, List.countP_append]
  omega

/-- The next job is the one that is called. -/
theorem Shows.invoke (h : Shows self s) {d : Nat} (hd : s.task.front = some d) :
    ∃ c, s.next self = some c.args.2 ∧
      (s.task.invoke self d).2.calls = s.task.calls ++ [c] ∧
      (s.task.invoke self d).2.pushed = s.task.pushed := by
  obtain ⟨c, cs, -, heq⟩ := h.paired.invoke_eq self hd
  refine ⟨c, ?_, ?_, ?_⟩
  · rw [State.next, hd, Option.bind_some, heq]
    rfl
  · rw [heq]
    simp [Os.Post.State.calls]
  · rw [heq]

/-- A step of the task. -/
theorem Shows.work (h : Shows self s) {a : Act Tid (Tid × Job)} (hexec : Execs self s.task a)
    (hstep : s.work self a = some s') : Shows self s' := by
  obtain ⟨task, htask, hwork⟩ := Option.bind_eq_some_iff.mp hstep
  have hpaired := step_paired h.paired htask
  have hlogged := step_logged h.logged h.paired htask
  have horder := step_inOrder h.inOrder h.logged h.paired hexec htask
  cases step_stepped htask with
  | @push t d a =>
    obtain ⟨u, job⟩ := a
    have hle := flushes_le h.inOrder
    cases job with
    | flush =>
      -- one flush more is asked for than was called
      obtain rfl := Option.some.inj hwork
      refine ⟨hpaired, hlogged, horder, h.length, fun _ => .inl ?_⟩
      show flushes s.task.calls < flushes (s.task.pushed ++ [_])
      simp only [flushes, List.countP_append, List.countP_singleton, beq_self_eq_true] at hle ⊢
      simp only [if_true]
      omega
    | other =>
      obtain rfl := Option.some.inj hwork
      refine ⟨hpaired, hlogged, horder, h.length, fun hf => ?_⟩
      have hsame : flushes (s.task.pushed ++ [⟨s.task.pushed.length, d, (u, Job.other)⟩])
          = flushes s.task.pushed := by
        simp [flushes, List.countP_append]
      have hfresh := h.fresh hf
      rw [← hsame] at hfresh
      exact hfresh
  | enqueue _ =>
    obtain rfl := Option.some.inj hwork
    exact ⟨hpaired, hlogged, horder, h.length, h.fresh⟩
  | pop hpop =>
    obtain ⟨-, hwork⟩ := Option.ite_none_right_eq_some.mp hwork
    obtain rfl := Option.some.inj hwork
    obtain ⟨-, q, -, rfl⟩ := pop_some hpop
    exact ⟨hpaired, hlogged, horder, h.length, h.fresh⟩
  | @invoke d hd =>
    obtain ⟨hidle, hwork⟩ := Option.ite_none_right_eq_some.mp hwork
    obtain ⟨c, hnext, hcalls, hpushed⟩ := h.invoke hd
    obtain rfl := Option.some.inj hwork
    rw [hnext]
    cases hjob : c.args.2 with
    | flush =>
      rw [if_pos rfl]
      exact ⟨hpaired, hlogged, horder, h.length, fun _ => .inr (.inl ⟨0, rfl, rfl⟩)⟩
    | other =>
      rw [if_neg (by simp)]
      refine ⟨hpaired, hlogged, horder, h.length, fun hf => ?_⟩
      have hsame : flushes (s.task.calls ++ [c]) = flushes s.task.calls := by
        simp [flushes, List.countP_append, hjob]
      have hfresh := h.fresh hf
      rw [← hsame, ← hcalls, ← hpushed] at hfresh
      exact hfresh

/-- A round of the loop. -/
theorem Shows.loop (h : Shows self s) (hstep : s.loop = some s') : Shows self s' := by
  obtain ⟨i, hi, rfl⟩ := Option.map_eq_some_iff.mp hstep
  cases hpixel : s.frame[i]? with
  | some pixel =>
    refine ⟨h.paired, h.logged, h.inOrder, h.length, fun hf => ?_⟩
    rcases h.fresh hf with hmore | ⟨j, hj, hline⟩ | ⟨hnone, -⟩
    · exact .inl hmore
    · obtain rfl := Option.some.inj (hi.symm.trans hj)
      refine .inr (.inl ⟨i + 1, rfl, ?_⟩)
      have htake : s.frame.take (i + 1) = s.frame.take i ++ [pixel] := by
        rw [List.take_add_one, hpixel]
        rfl
      rw [htake, List.flatMap_append, ← hline]
      simp
    · rw [hnone] at hi
      cases hi
  | none =>
    refine ⟨h.paired, h.logged, h.inOrder, (length_latch ..).trans h.length, fun hf => ?_⟩
    rcases h.fresh hf with hmore | ⟨j, hj, hline⟩ | ⟨hnone, -⟩
    · exact .inl hmore
    · obtain rfl := Option.some.inj (hi.symm.trans hj)
      refine .inr (.inr ⟨rfl, ?_⟩)
      show latch s.shown s.line = s.frame
      rw [hline, List.take_of_length_le (List.getElem?_eq_none_iff.mp hpixel),
        latch_frame h.length]
    · rw [hnone] at hi
      cases hi

/-- **Every step** keeps it. -/
theorem Shows.step (h : Shows self s) {a : Action Tid} (hok : Ok self s a)
    (hstep : Ws2812.step self s a = some s') : Shows self s' := by
  cases a with
  | task a => exact h.work hok hstep
  | flush =>
    obtain ⟨-, hflush⟩ := Option.ite_none_right_eq_some.mp hstep
    obtain rfl := Option.some.inj hflush
    exact ⟨h.paired, h.logged, h.inOrder, h.length, fun _ => .inr (.inl ⟨0, rfl, rfl⟩)⟩
  | pixel => exact h.loop hstep
  | change i c =>
    obtain rfl := Option.some.inj hstep
    refine ⟨h.paired, h.logged, h.inOrder, ?_, nofun⟩
    rw [List.length_set]
    exact h.length

/-- A pixel is changed again while it is being sent, and another thread calls `flush` meanwhile. -/
def exampleActions : List (Action Nat) :=
  [.change 0 ⟨1, 2, 3⟩, .task (.push 1 0 (1, .flush)), .task (.enqueue 1), .task .pop,
    .task .invoke, .pixel, .change 0 ⟨255, 0, 7⟩, .task (.push 2 1 (2, .flush)), .pixel, .pixel,
    .task (.enqueue 2), .task .pop, .task .invoke, .pixel, .pixel, .pixel]

def exampleState : State Nat :=
  (checkedRun (Ws2812.step 0) (Ok 0)
    (initial Nat [⟨0, 0, 0⟩, ⟨9, 9, 9⟩] [⟨4, 4, 4⟩, ⟨4, 4, 4⟩]) exampleActions).get
    (by decide +kernel)

end Runs

end RtCharger.Devices.Ws2812
