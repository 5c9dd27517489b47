import RtCharger.Lib.StepSystem
import Mathlib.Logic.Function.Basic

namespace RtCharger.Os.Timer

open StepSystem

/-!
# `Timer`

`Timer::running` mirrors the activation of a kernel timer.  `start` and `stop` test the flag,
change the kernel timer and then the flag; when a one-shot timer expires, the kernel deactivates
it and `Timer::run` clears the flag before it calls the callbacks.  Nothing keeps the two steps
of one party together.

* `step` — one step of a caller of `start` or `stop`, or of the timer thread;
* `Truthful` — the flag tells the truth whenever nothing is in progress;
* `NotStale` — what is written to the flag is still true;
* `truthful_of_notStale` — it tells the truth in every run without a stale write;
* `truthful_of_undisturbed` — a schedule that has none;
* `dead` — a timer whose flag is set although it is not active is never started again.
-/

variable {Tid : Type} [DecidableEq Tid]

/-- Where a caller of `start` or `stop` is. -/
inductive Pc where
  | idle
  /-- at `rt_timer_start(timer.get())` -/
  | startKernel
  /-- at `running = true` -/
  | setRunning
  /-- at `rt_timer_stop(timer.get())` -/
  | stopKernel
  /-- at `running = false` of `Timer::stop` -/
  | clearRunning
deriving DecidableEq, Repr

/-- Where the timer thread is with this timer. -/
inductive Expiry where
  | idle
  /-- in `Timer::run`, before the callbacks -/
  | entered
  /-- in the callbacks -/
  | callback
deriving DecidableEq, Repr

/-- The timer and those who use it; `none` is the timer thread. -/
structure State (Tid : Type) where
  running : Bool
  /-- `RT_TIMER_FLAG_ACTIVATED` of the kernel timer. -/
  active : Bool
  pc : Option Tid → Pc
  expiry : Expiry

/-- A new timer. -/
def initial (Tid : Type) : State Tid := ⟨false, false, fun _ => .idle, .idle⟩

/-- A call of `start` or `stop`, up to its test; the next step of a call; and the expiry. -/
inductive Act (Tid : Type) where
  | start (t : Option Tid)
  | stop (t : Option Tid)
  | next (t : Option Tid)
  /-- `rt_soft_timer_check` takes the timer out of its list. -/
  | expire
  /-- `Timer::run`, up to the call of the callbacks. -/
  | run
  /-- The callbacks return. -/
  | ret
deriving DecidableEq, Repr

namespace State

/-- The caller goes on to `pc`. -/
def goto (s : State Tid) (t : Option Tid) (pc : Pc) : State Tid :=
  { s with pc := Function.update s.pc t pc }

/-- A thread may call at any time, the timer thread from the callbacks. -/
def MayCall (s : State Tid) (t : Option Tid) : Prop :=
  s.pc t = .idle ∧ (t = none → s.expiry = .callback)

instance (s : State Tid) (t : Option Tid) : Decidable (s.MayCall t) :=
  inferInstanceAs (Decidable (_ ∧ _))

end State

/-- `if(running) return;` of `Timer::start`. -/
def start (s : State Tid) (t : Option Tid) : State Tid :=
  if s.running then s else s.goto t .startKernel

/-- `if(!running) return;` of `Timer::stop`. -/
def stop (s : State Tid) (t : Option Tid) : State Tid :=
  if !s.running then s else s.goto t .stopKernel

/-- The next step of a call. -/
def next (s : State Tid) (t : Option Tid) : Option (State Tid) :=
  match s.pc t with
  | .idle         => none
  | .startKernel  => some ({ s with active := true }.goto t .setRunning)
  | .setRunning   => some ({ s with running := true }.goto t .idle)
  -- `rt_timer_stop` does nothing to a timer that is not active
  | .stopKernel   => some ({ s with active := false }.goto t .clearRunning)
  | .clearRunning => some ({ s with running := false }.goto t .idle)

/-- One step. -/
def step (periodic : Bool) (s : State Tid) : Act Tid → Option (State Tid)
  | .start t => if s.MayCall t then some (start s t) else none
  | .stop t  => if s.MayCall t then some (stop s t) else none
  | .next t  => next s t
  | .expire  =>
    if s.active = true ∧ s.expiry = .idle then
      some { s with active := if periodic then s.active else false
                    expiry := .entered }
    else none
  | .run =>
    if s.expiry = .entered then
      some { s with running := if periodic then s.running else false
                    expiry  := .callback }
    else none
  -- a periodic timer that is still active is started again, and stays active
  | .ret =>
    if s.expiry = .callback ∧ s.pc none = .idle then some { s with expiry := .idle } else none

/-! ### The truth -/

/-- Nothing is in progress. -/
def Quiet (s : State Tid) : Prop := (∀ t, s.pc t = .idle) ∧ s.expiry = .idle

/-- **`isRunning` tells the truth** when nothing is in progress, so that `start` really starts a
    timer that is not active. -/
structure Truthful (periodic : Bool) (s : State Tid) : Prop where
  mirrors : Quiet s → s.running = s.active
  starts : Quiet s → s.active = false → ∀ t, ∃ s',
    StepSystem.run (step periodic) s [.start (some t), .next (some t), .next (some t)] = some s' ∧
      s'.active = true ∧ s'.running = true

/-- What the caller is about to write to the flag. -/
def Pc.writes : Pc → Option Bool
  | .setRunning   => some true
  | .clearRunning => some false
  | _             => none

/-- What the timer thread is about to write to the flag. -/
def State.expiryWrites (periodic : Bool) (s : State Tid) : Option Bool :=
  if s.expiry = .entered ∧ periodic = false then some false else none

/-- What a step writes to the flag. -/
def writes (periodic : Bool) (s : State Tid) : Act Tid → Option Bool
  | .next t => (s.pc t).writes
  | .run    => s.expiryWrites periodic
  | _       => none

/-- What is written to the flag, if anything, is what the kernel timer is at that moment. -/
def NotStale (periodic : Bool) (s : State Tid) (a : Act Tid) : Prop :=
  ∀ v, writes periodic s a = some v → s.active = v

instance (periodic : Bool) (s : State Tid) (a : Act Tid) : Decidable (NotStale periodic s a) :=
  decidable_of_iff ((writes periodic s a).all (fun v => decide (s.active = v)) = true) <| by
    simp only [Option.all_eq_true, decide_eq_true_eq, NotStale]

/-- Somebody is about to write `v` to the flag. -/
def Pending (periodic : Bool) (s : State Tid) (v : Bool) : Prop :=
  (∃ t, (s.pc t).writes = some v) ∨ s.expiryWrites periodic = some v

/-! ### What one step does -/

variable {periodic : Bool} {s s' : State Tid} {a : Act Tid}

@[simp] theorem pc_goto_self (s : State Tid) (t : Option Tid) (pc : Pc) :
    (s.goto t pc).pc t = pc := Function.update_self _ _ _

theorem pc_goto_of_ne (s : State Tid) {t u : Option Tid} (h : u ≠ t) (pc : Pc) :
    (s.goto t pc).pc u = s.pc u := Function.update_of_ne h _ _

/-- What a step leads to, with the guards that were passed. -/
inductive Stepped (periodic : Bool) (s : State Tid) : Act Tid → State Tid → Prop
  | starts {t} : s.MayCall t → s.running = false →
      Stepped periodic s (.start t) (s.goto t .startKernel)
  | started {t} : s.MayCall t → s.running = true → Stepped periodic s (.start t) s
  | stops {t} : s.MayCall t → s.running = true →
      Stepped periodic s (.stop t) (s.goto t .stopKernel)
  | stopped {t} : s.MayCall t → s.running = false → Stepped periodic s (.stop t) s
  | kernel {t pc v} : (s.pc t = .startKernel ∧ pc = .setRunning ∧ v = true ∨
        s.pc t = .stopKernel ∧ pc = .clearRunning ∧ v = false) →
      Stepped periodic s (.next t) ({ s with active := v }.goto t pc)
  | flag {t v} : (s.pc t).writes = some v →
      Stepped periodic s (.next t) ({ s with running := v }.goto t .idle)
  | expire : s.active = true → s.expiry = .idle →
      Stepped periodic s .expire { s with active := if periodic then s.active else false
                                          expiry := .entered }
  | run : s.expiry = .entered →
      Stepped periodic s .run { s with running := if periodic then s.running else false
                                       expiry  := .callback }
  | ret : s.expiry = .callback → s.pc none = .idle →
      Stepped periodic s .ret { s with expiry := .idle }

theorem next_stepped {t : Option Tid} (h : next s t = some s') :
    Stepped periodic s (.next t) s' := by
  unfold next at h
  split at h
  · cases h
  · rename_i hpc
    obtain rfl := Option.some.inj h
    exact .kernel (.inl ⟨hpc, rfl, rfl⟩)
  · rename_i hpc
    obtain rfl := Option.some.inj h
    exact .flag (by rw [hpc]; rfl)
  · rename_i hpc
    obtain rfl := Option.some.inj h
    exact .kernel (.inr ⟨hpc, rfl, rfl⟩)
  · rename_i hpc
    obtain rfl := Option.some.inj h
    exact .flag (by rw [hpc]; rfl)

theorem step_stepped (h : step periodic s a = some s') : Stepped periodic s a s' := by
  cases a with
  | start t =>
    obtain ⟨hmay, hs⟩ := Option.ite_none_right_eq_some.mp h
    obtain rfl := Option.some.inj hs
    unfold start
    split_ifs with hrun
    · exact .started hmay hrun
    · exact .starts hmay (Bool.eq_false_iff.mpr hrun)
  | stop t =>
    obtain ⟨hmay, hs⟩ := Option.ite_none_right_eq_some.mp h
    obtain rfl := Option.some.inj hs
    unfold stop
    split_ifs with hrun
    · exact .stopped hmay (by simpa using hrun)
    · exact .stops hmay (by simpa using hrun)
  | next t => exact next_stepped h
  | expire =>
    obtain ⟨⟨hactive, hidle⟩, hs⟩ := Option.ite_none_right_eq_some.mp h
    obtain rfl := Option.some.inj hs
    exact .expire hactive hidle
  | run =>
    obtain ⟨hentered, hs⟩ := Option.ite_none_right_eq_some.mp h
    obtain rfl := Option.some.inj hs
    exact .run hentered
  | ret =>
    obtain ⟨⟨hcall, hpc⟩, hs⟩ := Option.ite_none_right_eq_some.mp h
    obtain rfl := Option.some.inj hs
    exact .ret hcall hpc

/-! ### The invariant -/

/-- The flag is right, or somebody is about to make it so. -/
def Mirrored (periodic : Bool) (s : State Tid) : Prop :=
  s.running = s.active ∨ Pending periodic s s.active

omit [DecidableEq Tid] in
/-- Nobody writes to the flag when nothing is in progress. -/
theorem not_pending_of_quiet (h : Quiet s) (v : Bool) : ¬ Pending periodic s v := by
  rintro (⟨t, ht⟩ | hexpiry)
  · rw [h.1 t] at ht
    cases ht
  · simp [State.expiryWrites, h.2] at hexpiry

/-- A step of a caller who writes nothing next keeps who does. -/
theorem Pending.goto {t : Option Tid} (hpc : (s.pc t).writes = none) (pc : Pc) {v : Bool}
    (h : Pending periodic s v) : Pending periodic (s.goto t pc) v := by
  rcases h with ⟨u, hu⟩ | hexpiry
  · left
    refine ⟨u, ?_⟩
    rw [pc_goto_of_ne]
    · exact hu
    · rintro rfl
      rw [hpc] at hu
      cases hu
  · exact .inr hexpiry

omit [DecidableEq Tid] in
/-- Who is about to write is a caller, as long as the timer thread is not. -/
theorem Pending.caller {v : Bool} (h : Pending periodic s v)
    (hexpiry : s.expiry ≠ .entered ∨ periodic = true) : ∃ t, (s.pc t).writes = some v := by
  rcases h with hcaller | hthread
  · exact hcaller
  · obtain ⟨hentered, -⟩ := Option.ite_none_right_eq_some.mp hthread
    rcases hexpiry with hne | hper
    · exact absurd hentered.1 hne
    · rw [hper] at hentered
      cases hentered.2

/-- **One step** without a stale write. -/
theorem Stepped.mirrored (h : Stepped periodic s a s') (hok : NotStale periodic s a)
    (hs : Mirrored periodic s) : Mirrored periodic s' := by
  cases h with
  | @starts t hmay _ =>
    have hpc : (s.pc t).writes = none := by rw [hmay.1]; rfl
    exact hs.imp id (Pending.goto hpc _)
  | started _ _ => exact hs
  | @stops t hmay _ =>
    have hpc : (s.pc t).writes = none := by rw [hmay.1]; rfl
    exact hs.imp id (Pending.goto hpc _)
  | stopped _ _ => exact hs
  | @kernel t pc v hpc =>
    -- whoever changed the kernel timer writes that to the flag next
    refine .inr (.inl ⟨t, ?_⟩)
    rw [pc_goto_self]
    rcases hpc with ⟨-, rfl, rfl⟩ | ⟨-, rfl, rfl⟩
    · rfl
    · rfl
  | @flag t v hwrites => exact .inl (hok v hwrites).symm
  | expire hactive hidle =>
    -- a one-shot timer is deactivated, and `Timer::run` clears the flag next
    cases hper : periodic with
    | false => exact .inr (.inr (by simp [State.expiryWrites]))
    | true =>
      refine hs.imp (fun hrun => hrun) fun hpend => .inl ?_
      exact hpend.caller (.inr hper)
  | run hentered =>
    cases hper : periodic with
    | false =>
      left
      have hwrites : writes periodic s .run = some false := by
        simp [writes, State.expiryWrites, hentered, hper]
      exact (hok false hwrites).symm
    | true =>
      refine hs.imp (fun hrun => hrun) fun hpend => .inl ?_
      exact hpend.caller (.inr hper)
  | ret hcall _ =>
    refine hs.imp id fun hpend => .inl ?_
    exact hpend.caller (.inl (by rw [hcall]; nofun))

theorem next_startKernel {t : Option Tid} (h : s.pc t = .startKernel) :
    next s t = some ({ s with active := true }.goto t .setRunning) := by
  rw [next, h]

theorem next_setRunning {t : Option Tid} (h : s.pc t = .setRunning) :
    next s t = some ({ s with running := true }.goto t .idle) := by
  rw [next, h]

/-- `start` of a thread on a timer whose flag is not set, with nothing else going on. -/
theorem run_start (hquiet : Quiet s) (hrun : s.running = false) (t : Tid) :
    ∃ s', StepSystem.run (step periodic) s [.start (some t), .next (some t), .next (some t)]
        = some s' ∧ s'.active = true ∧ s'.running = true := by
  have hmay : s.MayCall (some t) := ⟨hquiet.1 _, nofun⟩
  have hstart : step periodic s (.start (some t)) = some (s.goto (some t) .startKernel) := by
    rw [step, if_pos hmay, start, hrun]
    rfl
  refine ⟨{ { s.goto (some t) .startKernel with active := true }.goto (some t) .setRunning with
      running := true }.goto (some t) .idle, ?_, rfl, rfl⟩
  show ((step periodic s (.start (some t))).bind fun s₁ =>
    (next s₁ (some t)).bind fun s₂ => (next s₂ (some t)).bind some) = _
  rw [hstart, Option.bind_some, next_startKernel (pc_goto_self _ _ _), Option.bind_some,
    next_setRunning (pc_goto_self _ _ _), Option.bind_some]

/-- A flag that is right while nothing is in progress lets `start` do its work. -/
theorem truthful_of_mirrored (h : Mirrored periodic s) : Truthful periodic s := by
  have hmirrors : Quiet s → s.running = s.active :=
    fun hquiet => h.resolve_right (not_pending_of_quiet hquiet _)
  refine ⟨hmirrors, fun hquiet hactive => run_start hquiet ?_⟩
  rw [hmirrors hquiet, hactive]

/-- **What a stale write leaves behind** is a flag that is wrong. -/
theorem Stepped.wrong (h : Stepped periodic s a s') {v : Bool}
    (hwrites : writes periodic s a = some v) (hstale : s.active ≠ v) :
    s'.running ≠ s'.active := by
  cases h with
  | kernel hpc =>
    rcases hpc with ⟨hpc, -⟩ | ⟨hpc, -⟩
    · rw [writes, hpc] at hwrites
      cases hwrites
    · rw [writes, hpc] at hwrites
      cases hwrites
  | flag hpc =>
    obtain rfl := Option.some.inj (hpc.symm.trans hwrites)
    exact hstale.symm
  | run hentered =>
    obtain ⟨⟨-, rfl⟩, hv⟩ := Option.ite_none_right_eq_some.mp hwrites
    obtain rfl := Option.some.inj hv
    exact hstale.symm
  | _ => cases hwrites

/-! ### Every run -/

omit [DecidableEq Tid] in
theorem mirrored_initial : Mirrored periodic (initial Tid) := .inl rfl

/-- **`isRunning` tells the truth** in every run in which whatever is written to the flag is still
    true when it is written; a write that is not makes the flag wrong. -/
theorem truthful_of_notStale {as : List (Act Tid)}
    (h : Runs (step periodic) (NotStale periodic) (initial Tid) as s) :
    Truthful periodic s ∧
      ∀ a s' v, step periodic s a = some s' → writes periodic s a = some v → s.active ≠ v →
        s'.running ≠ s'.active := by
  constructor
  · apply truthful_of_mirrored
    exact h.invariant (Mirrored periodic)
      (fun _ _ _ hs hok hstep => (step_stepped hstep).mirrored hok hs) mirrored_initial
  · intro a s' v hstep hwrites hstale
    exact (step_stepped hstep).wrong hwrites hstale

/-- A one-shot timer is started, expires, and is started again by its callback. -/
def againRun : List (Act Unit) :=
  [.start (some ()), .next (some ()), .next (some ()), .expire, .run, .start none, .next none,
    .next none, .ret]

theorem truthful_of_notStale_again :
    Truthful false ((checkedRun (step false) (NotStale false) (initial Unit) againRun).get
        (by decide)) ∧
      ∀ a s' v,
        step false ((checkedRun (step false) (NotStale false) (initial Unit) againRun).get
            (by decide)) a = some s' →
          writes false ((checkedRun (step false) (NotStale false) (initial Unit) againRun).get
            (by decide)) a = some v →
          ((checkedRun (step false) (NotStale false) (initial Unit) againRun).get
            (by decide)).active ≠ v →
          s'.running ≠ s'.active :=
  truthful_of_notStale (runs_checked_get (by decide))

/-- A one-shot timer expires before `start` has set its flag. -/
def expiresFirstRun : List (Act Unit) :=
  [.start (some ()), .next (some ()), .expire, .run, .ret, .next (some ())]

theorem running_not_active :
    ∃ s, Runs (step false) anyAction (initial Unit) expiresFirstRun s ∧ ¬ Truthful false s := by
  refine ⟨_, runs_get (by decide), fun h => ?_⟩
  have hquiet : Quiet ((StepSystem.run (step false) (initial Unit) expiresFirstRun).get
      (by decide)) := by
    refine ⟨fun t => ?_, by decide⟩
    cases t with
    | none => decide
    | some t =>
      cases t
      decide
  exact absurd (h.mirrors hquiet) (by decide)

/-! ### Undisturbed schedules -/

/-- What a step makes of the kernel timer. -/
def changes (periodic : Bool) (s : State Tid) : Act Tid → Option Bool
  | .next t =>
    match s.pc t with
    | .startKernel => some true
    | .stopKernel  => some false
    | _            => none
  | .expire => if periodic then none else some false
  | _       => none

/-- Whoever changes the kernel timer does so while nobody is about to write the contrary to the
    flag. -/
def Undisturbed (periodic : Bool) (s : State Tid) (a : Act Tid) : Prop :=
  ∀ v, changes periodic s a = some v → ¬ Pending periodic s (!v)

/-- All that is about to be written is true. -/
def Agreed (periodic : Bool) (s : State Tid) : Prop := ∀ v, Pending periodic s v → s.active = v

/-- Somebody who is about to write to the flag after a caller's step is that caller, or was so
    before. -/
theorem pending_goto {t : Option Tid} {pc : Pc} {v : Bool}
    (h : Pending periodic (s.goto t pc) v) : pc.writes = some v ∨ Pending periodic s v := by
  rcases h with ⟨u, hu⟩ | hexpiry
  · by_cases hut : u = t
    · subst hut
      rw [pc_goto_self] at hu
      exact .inl hu
    · rw [pc_goto_of_ne s hut] at hu
      exact .inr (.inl ⟨u, hu⟩)
  · exact .inr (.inr hexpiry)

/-- **One step** of an undisturbed schedule. -/
theorem Stepped.agreed (h : Stepped periodic s a s') (hok : Undisturbed periodic s a)
    (hs : Agreed periodic s) : Agreed periodic s' := by
  intro w hw
  cases h with
  | starts _ _ =>
    -- a caller who has just tested the flag writes nothing next
    rcases pending_goto hw with hpc | hpend
    · cases hpc
    · exact hs w hpend
  | started _ _ => exact hs w hw
  | stops _ _ =>
    rcases pending_goto hw with hpc | hpend
    · cases hpc
    · exact hs w hpend
  | stopped _ _ => exact hs w hw
  | @kernel t pc v hpc =>
    have hchanges : changes periodic s (.next t) = some v ∧ pc.writes = some v := by
      rcases hpc with ⟨hpc, rfl, rfl⟩ | ⟨hpc, rfl, rfl⟩
      · rw [changes, hpc]
        exact ⟨rfl, rfl⟩
      · rw [changes, hpc]
        exact ⟨rfl, rfl⟩
    rcases pending_goto hw with hpc | hpend
    · exact Option.some.inj (hchanges.2.symm.trans hpc)
    · -- nobody else is about to write the contrary
      show v = w
      by_contra hne
      obtain rfl : w = !v := Bool.eq_not_of_ne (Ne.symm hne)
      exact hok v hchanges.1 hpend
  | flag _ =>
    rcases pending_goto hw with hpc | hpend
    · cases hpc
    · exact hs w hpend
  | expire _ _ =>
    cases hper : periodic with
    | false =>
      -- the expiry deactivates the timer, so that no caller is about to set the flag
      subst hper
      show false = w
      rcases hw with hcaller | hthread
      · cases w with
        | false => rfl
        | true => exact absurd (.inl hcaller) (hok false rfl)
      · exact Option.some.inj (Option.ite_none_right_eq_some.mp hthread).2
    | true => exact hs w (.inl (hw.caller (.inr hper)))
  | run _ => exact hs w (.inl (hw.caller (.inl nofun)))
  | ret _ _ => exact hs w (.inl (hw.caller (.inl nofun)))

omit [DecidableEq Tid] in
/-- Whoever writes to the flag was about to do so. -/
theorem pending_of_writes {v : Bool} (h : writes periodic s a = some v) : Pending periodic s v := by
  cases a with
  | next t => exact .inl ⟨t, h⟩
  | run => exact .inr h
  | _ => cases h

/-- **An undisturbed schedule** has no stale write. -/
theorem truthful_of_undisturbed {as : List (Act Tid)}
    (h : Runs (step periodic) (Undisturbed periodic) (initial Tid) as s) : Truthful periodic s := by
  have hinitial : Agreed periodic (initial Tid) := by
    intro v hpend
    exact absurd hpend (not_pending_of_quiet ⟨fun _ => rfl, rfl⟩ v)
  have hnotStale : Runs (step periodic) (NotStale periodic) (initial Tid) as s :=
    h.mono_of_invariant (Agreed periodic)
      (fun _ _ _ hs hok hstep => (step_stepped hstep).agreed hok hs)
      (fun _ _ hs _ v hwrites => hs v (pending_of_writes hwrites)) hinitial
  apply truthful_of_mirrored
  exact hnotStale.invariant (Mirrored periodic)
    (fun _ _ _ hs hok hstep => (step_stepped hstep).mirrored hok hs) mirrored_initial

/-! ### A dead timer -/

/-- **A dead timer.**  A flag that is set for a timer that is not active keeps every `start` from
    starting it: nothing changes any more until somebody calls `stop`. -/
theorem dead (hquiet : Quiet s) (hactive : s.active = false) (hrun : s.running = true)
    {as : List (Act Tid)} (h : Runs (step periodic) (fun _ a => ∀ t, a ≠ .stop t) s as s') :
    s' = s := by
  refine h.invariant (fun s' => s' = s) ?_ rfl
  rintro _ a s'' rfl hstop hstep
  cases a with
  | start t =>
    obtain ⟨-, hs⟩ := Option.ite_none_right_eq_some.mp hstep
    rw [start, hrun] at hs
    exact (Option.some.inj hs).symm
  | stop t => exact absurd rfl (hstop t)
  | next t =>
    have hnext : next _ t = some s'' := hstep
    rw [next, hquiet.1 t] at hnext
    cases hnext
  | expire =>
    obtain ⟨⟨hactive', -⟩, -⟩ := Option.ite_none_right_eq_some.mp hstep
    rw [hactive] at hactive'
    cases hactive'
  | run =>
    obtain ⟨hentered, -⟩ := Option.ite_none_right_eq_some.mp hstep
    rw [hquiet.2] at hentered
    cases hentered
  | ret =>
    obtain ⟨⟨hcall, -⟩, -⟩ := Option.ite_none_right_eq_some.mp hstep
    rw [hquiet.2] at hcall
    cases hcall

end RtCharger.Os.Timer
