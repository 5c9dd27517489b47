import Mathlib.Data.List.Rotate
import RtCharger.Lib.StepSystem
import RtCharger.Lib.PriorityLists

namespace RtCharger.Kernel.Scheduler

open StepSystem PriorityLists

/-!
# The kernel's scheduler

`scheduler.c` for one processor and 32 priorities, of which zero is the highest, with what
`thread.c` and `clock.c` do to the states of the threads.  The ready threads wait in one list for
each priority, and `rt_thread_ready_priority_group` tells which of them are empty.  The actions
come from threads or from interrupts, in any order.

* `scheduleInsertThread`, …, `schedule`, `step` — the functions of the source;
* `Inv`, `Inv.step` — the lists hold exactly the threads that are ready;
* `highest_runs` — after `rt_schedule`, unless the scheduler is locked, no ready thread has a higher
  priority than the one that runs, and no thread is lost;
* `yields_rotate` — threads of one priority take turns.
-/

/-! ### The functions of the source -/

/-- `thread->stat & RT_THREAD_STAT_MASK`. -/
inductive Stat where
  | init
  | ready
  | suspend
  | running
  | close
deriving DecidableEq, Repr

/-- What scheduling uses of `struct rt_thread`; `yield` is `RT_THREAD_STAT_YIELD`. -/
structure RtThread where
  stat : Stat
  yield : Bool
  initPriority : Nat
  currentPriority : Nat
  numberMask : BitVec 32
  initTick : BitVec 32
  remainingTick : BitVec 32
deriving DecidableEq, Repr

/-- The variables of the scheduler, and the threads. -/
structure State (Tid : Type) where
  /-- `rt_thread_ready_priority_group`. -/
  readyPriorityGroup : BitVec 32
  /-- `rt_thread_priority_table`. -/
  priorityTable : Nat → List Tid
  thread : Tid → RtThread
  /-- `rt_current_thread`. -/
  currentThread : Option Tid
  /-- `rt_scheduler_lock_nest`, an `rt_int16_t`. -/
  schedulerLockNest : BitVec 16

/-- `_rt_thread_init`. -/
def threadInit (priority : Nat) (tick : BitVec 32) : RtThread :=
  ⟨.init, false, priority, priority, 0#32, tick, tick⟩

/-- `rt_system_scheduler_init`, with threads of these priorities and ticks. -/
def systemSchedulerInit {Tid : Type} (priority : Tid → Nat) (tick : Tid → BitVec 32) : State Tid :=
  ⟨0#32, fun _ => [], fun t => threadInit (priority t) (tick t), none, 0#16⟩

section Functions

variable {Tid : Type} [DecidableEq Tid]

/-- Fields of a thread are set. -/
def State.modify (s : State Tid) (t : Tid) (f : RtThread → RtThread) : State Tid :=
  { s with thread := Function.update s.thread t (f (s.thread t)) }

/-- `rt_schedule_insert_thread`. -/
def scheduleInsertThread (s : State Tid) (t : Tid) : State Tid :=
  if s.currentThread = some t then s.modify t fun thread => { thread with stat := .running }
  else
    let s := s.modify t fun thread => { thread with stat := .ready }
    let currentPriority := (s.thread t).currentPriority
    { s with
      priorityTable := Function.update s.priorityTable currentPriority
        (s.priorityTable currentPriority ++ [t])
      readyPriorityGroup := s.readyPriorityGroup ||| (s.thread t).numberMask }

/-- `rt_schedule_remove_thread`: the thread is taken off the list it is in. -/
def scheduleRemoveThread (s : State Tid) (t : Tid) : State Tid :=
  { s with
    priorityTable := fun p => (s.priorityTable p).erase t
    readyPriorityGroup :=
      if (s.priorityTable (s.thread t).currentPriority).erase t = [] then
        s.readyPriorityGroup &&& ~~~(s.thread t).numberMask
      else s.readyPriorityGroup }

/-- `_get_highest_priority_thread`: the thread and its priority. -/
def getHighestPriorityThread (s : State Tid) : Option (Tid × Nat) :=
  let highestReadyPriority := ffs s.readyPriorityGroup - 1
  (s.priorityTable highestReadyPriority).head?.map fun t => (t, highestReadyPriority)

/-- `rt_system_scheduler_start`. -/
def systemSchedulerStart (s : State Tid) : Option (State Tid) :=
  match s.currentThread, getHighestPriorityThread s with
  | none, some (toThread, _) =>
    some ((scheduleRemoveThread { s with currentThread := some toThread } toThread).modify toThread
      fun thread => { thread with stat := .running, yield := false })
  | _, _ => none

/-- `rt_schedule`; `none` where it would use a thread that is not there. -/
def schedule (s : State Tid) : Option (State Tid) :=
  if s.schedulerLockNest = 0#16 then
    if s.readyPriorityGroup ≠ 0#32 then
      match s.currentThread, getHighestPriorityThread s with
      | some current, some (highest, highestReadyPriority) =>
        let thread := s.thread current
        let running : Bool := thread.stat == .running
        let stays : Bool := running && (decide (thread.currentPriority < highestReadyPriority) ||
          (thread.currentPriority == highestReadyPriority && !thread.yield))
        let toThread := if stays then current else highest
        let s :=
          if running then s.modify current fun thread => { thread with yield := false } else s
        if toThread ≠ current then
          let s := { s with currentThread := some toThread }
          -- `need_insert_from_thread`
          let s := if running && !stays then scheduleInsertThread s current else s
          some ((scheduleRemoveThread s toThread).modify toThread
            fun thread => { thread with stat := .running })
        else
          some ((scheduleRemoveThread s current).modify current
            fun thread => { thread with stat := .running })
      | _, _ => none
    else some s
  else some s

/-- `rt_thread_resume`. -/
def threadResume (s : State Tid) (t : Tid) : State Tid :=
  if (s.thread t).stat = .suspend then scheduleInsertThread s t else s

/-- `rt_thread_startup`; `none` if its assertion fails. -/
def threadStartup (s : State Tid) (t : Tid) : Option (State Tid) :=
  if (s.thread t).stat = .init then
    let s := s.modify t fun thread =>
      { thread with
        currentPriority := thread.initPriority
        numberMask := 1#32 <<< thread.initPriority
        stat := .suspend
        yield := false }
    let s := threadResume s t
    if s.currentThread = none then some s else schedule s
  else none

/-- `rt_thread_suspend`; `none` if its assertion fails. -/
def threadSuspend (s : State Tid) (t : Tid) : Option (State Tid) :=
  let stat := (s.thread t).stat
  if stat ≠ .ready ∧ stat ≠ .running then some s
  else if stat = .running ∧ s.currentThread ≠ some t then none
  else some ((scheduleRemoveThread s t).modify t fun thread => { thread with stat := .suspend })

/-- `rt_thread_timeout`; `none` if its assertion fails. -/
def threadTimeout (s : State Tid) (t : Tid) : Option (State Tid) :=
  if (s.thread t).stat = .suspend then schedule (scheduleInsertThread s t) else none

/-- `rt_thread_yield`. -/
def threadYield (s : State Tid) : Option (State Tid) :=
  s.currentThread.bind fun current =>
    schedule (s.modify current fun thread =>
      { thread with remainingTick := thread.initTick, yield := true })

/-- `rt_tick_increase` without the timers. -/
def tickIncrease (s : State Tid) : Option (State Tid) :=
  s.currentThread.bind fun current =>
    let s := s.modify current fun thread =>
      { thread with remainingTick := thread.remainingTick - 1#32 }
    if (s.thread current).remainingTick = 0#32 then
      schedule (s.modify current fun thread =>
        { thread with remainingTick := thread.initTick, yield := true })
    else some s

/-- `rt_thread_control` with `RT_THREAD_CTRL_CHANGE_PRIORITY`. -/
def changePriority (s : State Tid) (t : Tid) (priority : Nat) : State Tid :=
  let set (s : State Tid) : State Tid := s.modify t fun thread =>
    { thread with currentPriority := priority, numberMask := 1#32 <<< priority }
  if (s.thread t).stat = .ready then scheduleInsertThread (set (scheduleRemoveThread s t)) t
  else set s

/-- `rt_thread_detach` and `rt_thread_delete`. -/
def threadDelete (s : State Tid) (t : Tid) : State Tid :=
  if (s.thread t).stat = .close then s
  else
    let s := if (s.thread t).stat = .init then s else scheduleRemoveThread s t
    s.modify t fun thread => { thread with stat := .close, yield := false }

/-- `rt_thread_exit`. -/
def threadExit (s : State Tid) : Option (State Tid) :=
  s.currentThread.bind fun current =>
    schedule ((scheduleRemoveThread s current).modify current
      fun thread => { thread with stat := .close, yield := false })

/-- `rt_enter_critical`. -/
def enterCritical (s : State Tid) : State Tid :=
  { s with schedulerLockNest := s.schedulerLockNest + 1#16 }

/-- `rt_exit_critical`. -/
def exitCritical (s : State Tid) : Option (State Tid) :=
  let s := { s with schedulerLockNest := s.schedulerLockNest - 1#16 }
  if s.schedulerLockNest.toInt ≤ 0 then
    let s := { s with schedulerLockNest := 0#16 }
    if s.currentThread = none then some s else schedule s
  else some s

/-- The actions, of threads or of interrupts. -/
inductive Action (Tid : Type) where
  | start
  | startup (t : Tid)
  | suspend (t : Tid)
  | resume (t : Tid)
  | timeout (t : Tid)
  | yield
  | tick
  | changePriority (t : Tid) (priority : Nat)
  | delete (t : Tid)
  | exit
  | enterCritical
  | exitCritical
  | schedule
deriving DecidableEq, Repr

def step (s : State Tid) : Action Tid → Option (State Tid)
  | .start              => systemSchedulerStart s
  | .startup t          => threadStartup s t
  | .suspend t          => threadSuspend s t
  | .resume t           => some (threadResume s t)
  | .timeout t          => threadTimeout s t
  | .yield              => threadYield s
  | .tick               => tickIncrease s
  | .changePriority t p => some (changePriority s t p)
  | .delete t           => some (threadDelete s t)
  | .exit               => threadExit s
  | .enterCritical      => some (enterCritical s)
  | .exitCritical       => exitCritical s
  | .schedule           => s.currentThread.bind fun _ => schedule s

end Functions

/-! ### The invariant -/

variable {Tid : Type}

/-- `rt_thread_control` does not check the priority that it is given. -/
def Valid (_ : State Tid) : Action Tid → Prop
  | .changePriority _ p => p < 32
  | _                   => True

instance (s : State Tid) : (a : Action Tid) → Decidable (Valid s a)
  | .changePriority _ p => inferInstanceAs (Decidable (p < 32))
  | .start | .startup _ | .suspend _ | .resume _ | .timeout _ | .yield | .tick | .delete _ | .exit
  | .enterCritical | .exitCritical | .schedule => isTrue trivial

/-- The thread is ready. -/
def State.Ready (s : State Tid) (t : Tid) : Prop := (s.thread t).stat = .ready

/-- The priority of a thread. -/
def State.prio (s : State Tid) (t : Tid) : Nat := (s.thread t).currentPriority

/-- The priority and the mask fit together. -/
def RtThread.Masked (thread : RtThread) : Prop :=
  thread.currentPriority < 32 ∧ thread.numberMask = 1#32 <<< thread.currentPriority

/-- What is known of a thread. -/
structure RtThread.Fits (thread : RtThread) : Prop where
  init : thread.initPriority < 32
  mask : thread.stat ≠ .init → thread.stat ≠ .close → thread.Masked

structure Inv (s : State Tid) : Prop where
  /-- The lists hold exactly the threads that are ready. -/
  indexed : Indexed s.priorityTable s.readyPriorityGroup s.prio s.Ready
  fits : ∀ t, (s.thread t).Fits
  /-- At most one thread runs. -/
  running : ∀ t, (s.thread t).stat = .running → s.currentThread = some t
  current : ∀ t, s.currentThread = some t →
    (s.thread t).stat ≠ .ready ∧ (s.thread t).stat ≠ .init ∧ (s.thread t).Masked

section Steps

variable [DecidableEq Tid] {s s' : State Tid} {t u : Tid} {f : RtThread → RtThread}

@[simp]
theorem thread_modify_self : (s.modify t f).thread t = f (s.thread t) := Function.update_self ..

theorem thread_modify_ne (h : u ≠ t) : (s.modify t f).thread u = s.thread u :=
  Function.update_of_ne h _ _

/-- The threads of a state in which one was changed. -/
theorem forall_thread_modify {P : Tid → RtThread → Prop} (ht : P t (f (s.thread t)))
    (h : ∀ u, u ≠ t → P u (s.thread u)) (u : Tid) : P u ((s.modify t f).thread u) := by
  by_cases hut : u = t
  · subst hut
    rwa [thread_modify_self]
  · rw [thread_modify_ne hut]
    exact h u hut

omit [DecidableEq Tid] in
/-- Lists of some threads that are the ready ones of this state. -/
theorem Inv.build {prio : Tid → Nat} {R : Tid → Prop}
    (hindexed : Indexed s.priorityTable s.readyPriorityGroup prio R)
    (hready : ∀ u, s.Ready u ↔ R u) (hprio : ∀ u, R u → s.prio u = prio u)
    (hfits : ∀ u, (s.thread u).Fits)
    (hrunning : ∀ u, (s.thread u).stat = .running → s.currentThread = some u)
    (hcurrent : ∀ u, s.currentThread = some u → (s.thread u).stat ≠ .ready ∧
      (s.thread u).stat ≠ .init ∧ (s.thread u).Masked) : Inv s :=
  ⟨hindexed.congr hready hprio, hfits, hrunning, hcurrent⟩

/-- Flags and ticks of a thread do not matter. -/
theorem Inv.modify (h : Inv s) (hstat : (f (s.thread t)).stat = (s.thread t).stat)
    (hprio : (f (s.thread t)).currentPriority = (s.thread t).currentPriority)
    (hmask : (f (s.thread t)).numberMask = (s.thread t).numberMask)
    (hfits : (f (s.thread t)).Fits) : Inv (s.modify t f) := by
  have hsame : ∀ u, ((s.modify t f).thread u).stat = (s.thread u).stat :=
    forall_thread_modify (P := fun u thread => thread.stat = (s.thread u).stat) hstat fun _ _ => rfl
  refine .build h.indexed (fun u => ?_) (fun u _ => ?_)
    (forall_thread_modify (P := fun _ thread => thread.Fits) hfits fun u _ => h.fits u)
    (fun u hu => h.running u (by rwa [hsame] at hu)) (fun u hu => ?_)
  · rw [State.Ready, State.Ready, hsame]
  · exact forall_thread_modify (P := fun u thread => thread.currentPriority = s.prio u) hprio
      (fun _ _ => rfl) u
  · rw [hsame]
    obtain ⟨hready, hinit, hmasked⟩ := h.current u hu
    refine ⟨hready, hinit, ?_⟩
    refine forall_thread_modify (P := fun v thread => (s.thread v).Masked → thread.Masked)
      (fun hm => ?_) (fun _ _ hm => hm) u hmasked
    rw [RtThread.Masked, hprio, hmask]
    exact hm

/-- **A thread that is not in the lists** of the others may change in any way, as long as it does
    not become ready. -/
theorem Inv.put {R : Tid → Prop}
    (hindexed : Indexed s.priorityTable s.readyPriorityGroup s.prio fun u => R u ∧ u ≠ t)
    (hready : ∀ u, u ≠ t → (s.Ready u ↔ R u)) (hfits : ∀ u, u ≠ t → (s.thread u).Fits)
    (hrunning : ∀ u, u ≠ t → (s.thread u).stat = .running → s.currentThread = some u)
    (hcurrent : ∀ u, u ≠ t → s.currentThread = some u → (s.thread u).stat ≠ .ready ∧
      (s.thread u).stat ≠ .init ∧ (s.thread u).Masked)
    (htready : (f (s.thread t)).stat ≠ .ready) (htfits : (f (s.thread t)).Fits)
    (htrunning : (f (s.thread t)).stat = .running → s.currentThread = some t)
    (htcurrent : s.currentThread = some t → (f (s.thread t)).stat ≠ .init ∧
      (f (s.thread t)).Masked) :
    Inv (s.modify t f) := by
  refine .build hindexed
    (forall_thread_modify (P := fun u thread => thread.stat = .ready ↔ R u ∧ u ≠ t) ?_ ?_)
    (fun u hu => ?_)
    (forall_thread_modify (P := fun _ thread => thread.Fits) htfits hfits)
    (forall_thread_modify (P := fun u thread => thread.stat = .running → s.currentThread = some u)
      htrunning hrunning)
    (forall_thread_modify (P := fun u thread => s.currentThread = some u →
      thread.stat ≠ .ready ∧ thread.stat ≠ .init ∧ thread.Masked)
      (fun hc => ⟨htready, htcurrent hc⟩) hcurrent)
  · exact ⟨fun hr => absurd hr htready, fun hr => absurd rfl hr.2⟩
  · exact fun u hu => ⟨fun hr => ⟨(hready u hu).mp hr, hu⟩, fun hr => (hready u hu).mpr hr.1⟩
  · rw [State.prio, thread_modify_ne hu.2]
    rfl

/-- A thread that is not ready changes. -/
theorem Inv.change (h : Inv s) (ht : ¬s.Ready t) (htready : (f (s.thread t)).stat ≠ .ready)
    (htfits : (f (s.thread t)).Fits)
    (htrunning : (f (s.thread t)).stat = .running → s.currentThread = some t)
    (htcurrent : s.currentThread = some t → (f (s.thread t)).stat ≠ .init ∧
      (f (s.thread t)).Masked) :
    Inv (s.modify t f) := by
  have hindexed : Indexed s.priorityTable s.readyPriorityGroup s.prio fun u => s.Ready u ∧ u ≠ t :=
    h.indexed.congr (fun u => ⟨fun hu => hu.1, fun hu => ⟨hu, fun heq => ht (heq ▸ hu)⟩⟩)
      fun _ _ => rfl
  exact .put hindexed (fun _ _ => Iff.rfl) (fun u _ => h.fits u) (fun u _ => h.running u)
    (fun u _ => h.current u) htready htfits htrunning htcurrent

/-- The lists without a thread. -/
theorem remove_indexed {R : Tid → Prop}
    (h : Indexed s.priorityTable s.readyPriorityGroup s.prio R) (hlt : s.prio t < 32)
    (hmask : (s.thread t).numberMask = 1#32 <<< s.prio t) :
    Indexed (scheduleRemoveThread s t).priorityTable (scheduleRemoveThread s t).readyPriorityGroup
      s.prio fun u => R u ∧ u ≠ t := by
  have herase := h.erase t hlt
  rw [← hmask] at herase
  exact herase

/-- **A thread is taken out of the lists**, and is then something else than ready. -/
theorem Inv.remove (h : Inv s) (ht : (s.thread t).Masked)
    (htready : (f (s.thread t)).stat ≠ .ready) (htfits : (f (s.thread t)).Fits)
    (htrunning : (f (s.thread t)).stat = .running → s.currentThread = some t)
    (htcurrent : s.currentThread = some t → (f (s.thread t)).stat ≠ .init ∧
      (f (s.thread t)).Masked) :
    Inv ((scheduleRemoveThread s t).modify t f) := by
  exact .put (R := s.Ready) (remove_indexed h.indexed ht.1 ht.2) (fun _ _ => Iff.rfl)
    (fun u _ => h.fits u) (fun u _ => h.running u) (fun u _ => h.current u) htready htfits
    htrunning htcurrent

/-- The lists with one more thread. -/
theorem insert_indexed {R : Tid → Prop}
    (h : Indexed s.priorityTable s.readyPriorityGroup s.prio R) (ht : ¬R t)
    (hlt : s.prio t < 32) (hmask : (s.thread t).numberMask = 1#32 <<< s.prio t)
    (hcur : s.currentThread ≠ some t) :
    Indexed (scheduleInsertThread s t).priorityTable
      (scheduleInsertThread s t).readyPriorityGroup s.prio fun u => u = t ∨ R u := by
  have hinsert := h.insert ht hlt
  rw [← hmask] at hinsert
  unfold scheduleInsertThread
  rw [if_neg hcur]
  simp only [thread_modify_self]
  exact hinsert

/-- The threads after an insertion. -/
theorem insert_thread (hcur : s.currentThread ≠ some t) :
    (scheduleInsertThread s t).thread = (s.modify t ({ · with stat := .ready })).thread ∧
      (scheduleInsertThread s t).currentThread = s.currentThread := by
  unfold scheduleInsertThread
  rw [if_neg hcur]
  exact ⟨rfl, rfl⟩

/-- **A thread becomes ready**, or goes on if it is the current one. -/
theorem Inv.insert (h : Inv s) (ht : (s.thread t).stat = .suspend) :
    Inv (scheduleInsertThread s t) := by
  obtain ⟨hlt, hmask⟩ := (h.fits t).mask (by rw [ht]; decide) (by rw [ht]; decide)
  have hnot : ¬s.Ready t := by rw [State.Ready, ht]; decide
  have hfits : ∀ stat, ({ s.thread t with stat } : RtThread).Fits := fun stat =>
    ⟨(h.fits t).init, fun _ _ => ⟨hlt, hmask⟩⟩
  by_cases hcur : s.currentThread = some t
  · have hinsert : scheduleInsertThread s t
        = s.modify t fun thread => { thread with stat := .running } := if_pos hcur
    rw [hinsert]
    exact h.change hnot (by simp) (hfits _) (fun _ => hcur) fun _ => ⟨by simp, hlt, hmask⟩
  · obtain ⟨hthread, hcurrent⟩ := insert_thread hcur
    refine .build (insert_indexed h.indexed hnot hlt hmask hcur) (fun u => ?_) (fun u _ => ?_)
      (fun u => ?_) (fun u => ?_) (fun u => ?_)
    · rw [State.Ready, hthread]
      refine forall_thread_modify (P := fun u thread => thread.stat = .ready ↔ u = t ∨ s.Ready u)
        (by simp) (fun u hu => ?_) u
      simp [hu, State.Ready]
    · rw [State.prio, hthread]
      exact forall_thread_modify (P := fun u thread => thread.currentPriority = s.prio u) rfl
        (fun _ _ => rfl) u
    · rw [hthread]
      exact forall_thread_modify (P := fun _ thread => thread.Fits) (hfits _)
        (fun u _ => h.fits u) u
    · rw [hthread, hcurrent]
      exact forall_thread_modify (P := fun u thread => thread.stat = .running →
        s.currentThread = some u) (by simp) (fun u _ => h.running u) u
    · rw [hthread, hcurrent]
      exact forall_thread_modify (P := fun u thread => s.currentThread = some u →
        thread.stat ≠ .ready ∧ thread.stat ≠ .init ∧ thread.Masked) (fun hc => absurd hc hcur)
        (fun u _ => h.current u) u

/-! ### What `rt_schedule` does -/

/-- The current thread leaves the processor to `t`; it is ready from now on if it was running. -/
def switched (s : State Tid) (current t : Tid) (running : Bool) : State Tid :=
  let s := if running then s.modify current ({ · with yield := false }) else s
  let s := { s with currentThread := some t }
  let s := if running then scheduleInsertThread s current else s
  (scheduleRemoveThread s t).modify t ({ · with stat := .running })

/-- The current thread goes on. -/
def stayed (s : State Tid) (current : Tid) : State Tid :=
  (scheduleRemoveThread (s.modify current ({ · with yield := false })) current).modify current
    ({ · with stat := .running })

/-- Only its flag that its time is over changes. -/
theorem stayed_thread : (stayed s t).thread =
    Function.update s.thread t { s.thread t with yield := false, stat := .running } := by
  show Function.update (Function.update s.thread t _) t _ = _
  rw [Function.update_idem]
  show Function.update s.thread t
    { (s.modify t ({ · with yield := false })).thread t with stat := .running } = _
  rw [thread_modify_self]

/-- What `rt_schedule` leads to. -/
inductive Scheduled (s : State Tid) : State Tid → Prop where
  | idle : s.schedulerLockNest ≠ 0#16 ∨ s.readyPriorityGroup = 0#32 → Scheduled s s
  /-- The current thread goes on: no thread that is ready has a higher priority, and none the same
      if it has had its time. -/
  | stays {current : Tid} : s.currentThread = some current →
      (s.thread current).stat = .running → (∀ u, s.Ready u → s.prio current ≤ s.prio u) →
      ((s.thread current).yield = true → ∀ u, s.Ready u → s.prio current < s.prio u) →
      Scheduled s (stayed s current)
  /-- The first thread of the highest priority takes over, from a thread that does not run, or
      that has a lower priority, or the same and has had its time. -/
  | switches {current t : Tid} {rest : List Tid} : s.currentThread = some current → s.Ready t →
      s.priorityTable (s.prio t) = t :: rest → (∀ u, s.Ready u → s.prio t ≤ s.prio u) →
      ((s.thread current).stat = .running → s.prio t ≤ s.prio current ∧
        (s.prio t = s.prio current → (s.thread current).yield = true)) →
      Scheduled s (switched s current t ((s.thread current).stat == .running))

/-- **Once the scheduler is started**, `rt_schedule` never uses a thread that is not there. -/
theorem schedule_scheduled (h : Inv s) {current : Tid} (hcur : s.currentThread = some current) :
    ∃ s', schedule s = some s' ∧ Scheduled s s' := by
  unfold schedule
  by_cases hlock : s.schedulerLockNest = 0#16
  · by_cases hgroup : s.readyPriorityGroup ≠ 0#32
    · obtain ⟨t, rest, htable, hready, hprio, hlow⟩ := h.indexed.lowest hgroup
      have hhighest : getHighestPriorityThread s = some (t, s.prio t) := by
        rw [getHighestPriorityThread, htable, ← hprio]
        rfl
      have hne : t ≠ current := fun heq => (h.current current hcur).1 (heq ▸ hready)
      rw [← hprio] at htable
      simp only [if_pos hlock, if_pos hgroup, hcur, hhighest]
      by_cases hstays : ((s.thread current).stat == .running &&
          (decide ((s.thread current).currentPriority < s.prio t) ||
            (s.thread current).currentPriority == s.prio t && !(s.thread current).yield)) = true
      · -- the current thread has the higher priority, or the same and its time is not over
        have hrunning : (s.thread current).stat = .running := by
          have := (Bool.and_eq_true_iff.mp hstays).1
          simpa using this
        refine ⟨stayed s current, ?_, .stays hcur hrunning (fun u hu => ?_) fun hyield u hu => ?_⟩
        · rw [if_pos hstays, if_neg (by simp), if_pos (by simpa using hrunning)]
          rfl
        all_goals
          have hle := hlow u hu
          have hcond := (Bool.and_eq_true_iff.mp hstays).2
          simp only [Bool.or_eq_true, decide_eq_true_eq, Bool.and_eq_true, beq_iff_eq,
            Bool.not_eq_true'] at hcond
        · show (s.thread current).currentPriority ≤ _
          omega
        · rw [hyield] at hcond
          simp only [Bool.true_eq_false, and_false, or_false] at hcond
          exact Nat.lt_of_lt_of_le hcond hle
      · -- otherwise the first ready thread is given the processor
        have hgoes : (s.thread current).stat = .running → s.prio t ≤ s.prio current ∧
            (s.prio t = s.prio current → (s.thread current).yield = true) := by
          intro hrunning
          simp only [hrunning, beq_self_eq_true, Bool.true_and, Bool.or_eq_true, decide_eq_true_eq,
            Bool.and_eq_true, beq_iff_eq, Bool.not_eq_true', not_or, not_and,
            Bool.not_eq_false] at hstays
          exact ⟨Nat.not_lt.mp hstays.1, fun heq => hstays.2 heq.symm⟩
        rw [Bool.not_eq_true] at hstays
        refine ⟨_, ?_, .switches hcur hready htable hlow hgoes⟩
        simp only [hstays, Bool.false_eq_true, if_false, ne_eq, hne, not_false_eq_true, if_true,
          Bool.not_false, Bool.and_true]
        rfl
    · exact ⟨s, by rw [if_pos hlock, if_neg hgroup], .idle (.inr (not_not.mp hgroup))⟩
  · exact ⟨s, if_neg hlock, .idle (.inl hlock)⟩

/-- No ready thread has a higher priority than the one that runs, if the scheduler is not
    locked. -/
def Highest (s : State Tid) : Prop :=
  s.schedulerLockNest = 0#16 → (∀ u, ¬s.Ready u) ∨ ∃ current, s.currentThread = some current ∧
    (s.thread current).stat = .running ∧ ∀ u, s.Ready u → s.prio current ≤ s.prio u

/-- The current thread, which was running, is put back into the lists, before `t` is taken out. -/
def handOver (s : State Tid) (current t : Tid) : State Tid :=
  scheduleInsertThread
    { s.modify current ({ · with yield := false }) with currentThread := some t } current

/-- What that changes: the thread is ready, and the flag that its time is over is cleared. -/
theorem handOver_thread {current : Tid} (hne : t ≠ current) :
    (handOver s current t).thread = Function.update s.thread current
        { s.thread current with yield := false, stat := .ready } ∧
      (handOver s current t).currentThread = some t := by
  obtain ⟨hthread, hcur⟩ := insert_thread (t := current)
    (s := { s.modify current ({ · with yield := false }) with currentThread := some t })
    fun heq => hne (Option.some.inj heq)
  refine ⟨hthread.trans ?_, hcur⟩
  show Function.update (Function.update s.thread current _) current _ = _
  rw [Function.update_idem]
  show Function.update s.thread current
    { (s.modify current ({ · with yield := false })).thread current with stat := .ready } = _
  rw [thread_modify_self]

theorem handOver_self {current : Tid} (hne : t ≠ current) :
    (handOver s current t).thread current
      = { s.thread current with yield := false, stat := .ready } := by
  rw [(handOver_thread hne).1, Function.update_self]

theorem handOver_other {current : Tid} (hne : t ≠ current) {u : Tid} (hu : u ≠ current) :
    (handOver s current t).thread u = s.thread u := by
  rw [(handOver_thread hne).1, Function.update_of_ne hu]

/-- Nobody's priority changes. -/
theorem handOver_prio {current : Tid} (hne : t ≠ current) (u : Tid) :
    (handOver s current t).prio u = s.prio u := by
  by_cases hu : u = current
  · rw [hu, State.prio, handOver_self hne]
    rfl
  · rw [State.prio, handOver_other hne hu]
    rfl

/-- One more thread is ready. -/
theorem handOver_ready {current : Tid} (hne : t ≠ current) (u : Tid) :
    (handOver s current t).Ready u ↔ u = current ∨ s.Ready u := by
  by_cases hu : u = current
  · simp [hu, State.Ready, handOver_self hne]
  · rw [State.Ready, handOver_other hne hu]
    simp [hu, State.Ready]

/-- The lists then. -/
theorem Inv.handOver_indexed (h : Inv s) {current : Tid} (hcur : s.currentThread = some current)
    (hne : t ≠ current) :
    Indexed (handOver s current t).priorityTable (handOver s current t).readyPriorityGroup
      (handOver s current t).prio fun u => u = current ∨ s.Ready u := by
  obtain ⟨hready, hinit, hlt, hmask⟩ := h.current current hcur
  obtain ⟨s₂, hs₂⟩ : ∃ s₂, s₂ = ({ s.modify current ({ · with yield := false }) with
    currentThread := some t } : State Tid) := ⟨_, rfl⟩
  have hthread : s₂.thread current = { s.thread current with yield := false } := by
    rw [hs₂]
    exact Function.update_self ..
  have hprio : ∀ u, s₂.prio u = s.prio u := fun u => by
    by_cases hu : u = current
    · rw [hu, State.prio, hthread]
      rfl
    · rw [hs₂]
      exact congrArg RtThread.currentPriority (Function.update_of_ne hu _ _)
  have hindexed : Indexed s₂.priorityTable s₂.readyPriorityGroup s₂.prio s.Ready := by
    have hcongr := h.indexed.congr (fun _ => Iff.rfl) fun u _ => hprio u
    rw [hs₂] at hcongr ⊢
    exact hcongr
  have hother : s₂.currentThread ≠ some current := by
    rw [hs₂]
    exact fun heq => hne (Option.some.inj heq)
  have hinsert := insert_indexed hindexed hready (by rw [hprio]; exact hlt)
    (by rw [hthread, hprio]; exact hmask) hother
  rw [handOver, ← hs₂]
  refine hinsert.congr (fun _ => Iff.rfl) fun u _ => ?_
  rw [State.prio, (insert_thread hother).1]
  exact forall_thread_modify (P := fun u thread => thread.currentPriority = s₂.prio u) rfl
    (fun _ _ => rfl) u

/-- **The processor goes to the first thread of the highest priority.** -/
theorem Inv.afterSwitch (h : Inv s) {current : Tid} (hcur : s.currentThread = some current)
    (ht : s.Ready t) (hlow : ∀ u, s.Ready u → s.prio t ≤ s.prio u)
    (hgoes : (s.thread current).stat = .running → s.prio t ≤ s.prio current) :
    Inv (switched s current t ((s.thread current).stat == .running)) ∧
      Highest (switched s current t ((s.thread current).stat == .running)) := by
  have hne : t ≠ current := fun heq => (h.current current hcur).1 (heq ▸ ht)
  obtain ⟨hlt, hmask⟩ := (h.fits t).mask (by rw [ht]; decide) (by rw [ht]; decide)
  have hfits : ({ s.thread t with stat := .running } : RtThread).Fits :=
    ⟨(h.fits t).init, fun _ _ => ⟨hlt, hmask⟩⟩
  by_cases hrunning : (s.thread current).stat = .running
  · -- the current thread goes back into the lists first
    have heq : ((s.thread current).stat == Stat.running) = true := by simpa using hrunning
    have hstate : switched s current t true =
        (scheduleRemoveThread (handOver s current t) t).modify t
          ({ · with stat := .running }) := rfl
    have hcur' : (handOver s current t).currentThread = some t := (handOver_thread hne).2
    have hself := handOver_self (s := s) hne
    have hprio := handOver_prio (s := s) hne
    rw [heq, hstate]
    refine ⟨.put (R := fun u => u = current ∨ s.Ready u) (remove_indexed
        (h.handOver_indexed hcur hne) (by rw [hprio]; exact hlt)
        (by rw [handOver_other hne hne, hprio]; exact hmask))
      (fun u _ => handOver_ready hne u) (fun u _ => ?_) (fun u _ hu => ?_) (fun u hu hc => ?_)
      (by simp) ?_
      (fun _ => hcur') (fun _ => ⟨by simp, ?_⟩), fun _ => .inr ⟨t, hcur', by simp, fun u hu => ?_⟩⟩
    · show ((handOver s current t).thread u).Fits
      by_cases huc : u = current
      · rw [huc, hself]
        exact ⟨(h.fits current).init, fun _ _ => (h.current current hcur).2.2⟩
      · rw [handOver_other hne huc]
        exact h.fits u
    · -- nobody else was running
      have hstat : ((handOver s current t).thread u).stat = .running := hu
      by_cases huc : u = current
      · rw [huc, hself] at hstat
        cases hstat
      · rw [handOver_other hne huc] at hstat
        exact absurd (Option.some.inj ((h.running u hstat).symm.trans hcur)) huc
    · exact absurd (Option.some.inj (hcur'.symm.trans hc)).symm hu
    · show ({ (handOver s current t).thread t with stat := .running } : RtThread).Fits
      rw [handOver_other hne hne]
      exact hfits
    · show ({ (handOver s current t).thread t with stat := .running } : RtThread).Masked
      rw [handOver_other hne hne]
      exact ⟨hlt, hmask⟩
    · by_cases hut : u = t
      · exact hut ▸ Nat.le_refl _
      · rw [State.prio, State.prio, thread_modify_self, thread_modify_ne hut]
        show (handOver s current t).prio t ≤ (handOver s current t).prio u
        rw [hprio, hprio]
        rw [State.Ready, thread_modify_ne hut] at hu
        rcases (handOver_ready hne u).mp hu with rfl | hr
        · -- it would have stayed if its priority were higher
          exact hgoes hrunning
        · exact hlow u hr
  · -- it waits or is closed: no list changes but the one that `t` leaves
    have heq : ((s.thread current).stat == Stat.running) = false := by simpa using hrunning
    have hstate : switched s current t false =
        (scheduleRemoveThread ({ s with currentThread := some t } : State Tid) t).modify t
          ({ · with stat := .running }) := rfl
    rw [heq, hstate]
    refine ⟨.put (R := s.Ready) (remove_indexed (s := { s with currentThread := some t })
      h.indexed hlt hmask) (fun _ _ => Iff.rfl) (fun u _ => h.fits u) (fun u _ hu => ?_)
      (fun u hu hc => absurd (Option.some.inj hc).symm hu) (by simp) hfits (fun _ => rfl)
      (fun _ => ⟨by simp, hlt, hmask⟩), fun _ => .inr ⟨t, rfl, by simp, fun u hu => ?_⟩⟩
    · rw [Option.some.inj ((h.running u hu).symm.trans hcur)] at hu
      exact absurd hu hrunning
    · by_cases hut : u = t
      · exact hut ▸ Nat.le_refl _
      · rw [State.Ready, thread_modify_ne hut] at hu
        rw [State.prio, State.prio, thread_modify_self, thread_modify_ne hut]
        exact hlow u hu

/-- **After `rt_schedule`** the highest priority runs. -/
theorem Inv.scheduled (h : Inv s) (hs : Scheduled s s') : Inv s' ∧ Highest s' := by
  cases hs with
  | idle hidle =>
    refine ⟨h, fun hlock => .inl ?_⟩
    rcases hidle with hlocked | hgroup
    · exact absurd hlock hlocked
    · exact h.indexed.group_eq_zero_iff.mp hgroup
  | @stays current hcur hrunning hlow _ =>
    have hfits := h.fits current
    have hmasked := (h.current current hcur).2.2
    have hyield : Inv (s.modify current ({ · with yield := false })) :=
      h.modify rfl rfl rfl ⟨hfits.init, hfits.mask⟩
    have hmasked' : ((s.modify current ({ · with yield := false })).thread current).Masked := by
      rw [thread_modify_self]
      exact hmasked
    refine ⟨hyield.remove hmasked' (by simp) ?_ (fun _ => hcur) (fun _ => ⟨by simp, hmasked'⟩),
      fun _ => .inr ⟨current, hcur, ?_, fun u hu => ?_⟩⟩
    · refine ⟨?_, fun _ _ => hmasked'⟩
      simpa using hfits.init
    · rw [stayed_thread, Function.update_self]
    · by_cases huc : u = current
      · subst huc
        exact Nat.le_refl _
      · rw [State.Ready, stayed_thread, Function.update_of_ne huc] at hu
        rw [State.prio, State.prio, stayed_thread, Function.update_of_ne huc, Function.update_self]
        exact hlow u hu
  | switches hcur ht _ hlow hgoes => exact h.afterSwitch hcur ht hlow fun hr => (hgoes hr).1

/-- `rt_schedule`, whenever it returns. -/
theorem Inv.schedule (h : Inv s) (hsched : Scheduler.schedule s = some s') :
    Inv s' ∧ Highest s' := by
  cases hcur : s.currentThread with
  | none =>
    -- the scheduler is not started: nothing may be ready
    have hidle : s.schedulerLockNest ≠ 0#16 ∨ s.readyPriorityGroup = 0#32 := by
      by_contra hno
      rw [not_or, not_not] at hno
      simp [Scheduler.schedule, hno, hcur] at hsched
    have hsame : Scheduler.schedule s = some s := by
      rcases hidle with hlock | hgroup
      · exact if_neg hlock
      · simp [Scheduler.schedule, hgroup]
    obtain rfl : s = s' := Option.some.inj (hsame.symm.trans hsched)
    exact h.scheduled (.idle hidle)
  | some current =>
    obtain ⟨t, ht, hs⟩ := schedule_scheduled h hcur
    obtain rfl : t = s' := Option.some.inj (ht.symm.trans hsched)
    exact h.scheduled hs

/-! ### Every step -/

/-- The time of the current thread is over. -/
theorem Inv.expire (h : Inv s) (t : Tid) :
    Inv (s.modify t fun thread =>
      { thread with remainingTick := thread.initTick, yield := true }) :=
  h.modify rfl rfl rfl ⟨(h.fits t).init, (h.fits t).mask⟩

theorem Inv.resume (h : Inv s) (t : Tid) : Inv (threadResume s t) := by
  unfold threadResume
  split_ifs with hsuspend
  · exact h.insert hsuspend
  · exact h

/-- A thread is started. -/
theorem Inv.startup (h : Inv s) (hstartup : threadStartup s t = some s') :
    Inv s' ∧ (s.currentThread ≠ none → Highest s') := by
  unfold threadStartup at hstartup
  rw [Option.ite_none_right_eq_some] at hstartup
  obtain ⟨hinit, hstartup⟩ := hstartup
  have hnot : ¬s.Ready t := by rw [State.Ready, hinit]; decide
  have hchange := h.change (f := fun thread =>
    { thread with
      currentPriority := thread.initPriority
      numberMask := 1#32 <<< thread.initPriority
      stat := .suspend
      yield := false }) hnot (by simp) ⟨(h.fits t).init, fun _ _ => ⟨(h.fits t).init, rfl⟩⟩
    (by simp) fun _ => ⟨by simp, (h.fits t).init, rfl⟩
  have hresume := hchange.resume t
  have hcur : (threadResume (s.modify t fun thread =>
      { thread with
        currentPriority := thread.initPriority
        numberMask := 1#32 <<< thread.initPriority
        stat := .suspend
        yield := false }) t).currentThread = s.currentThread := by
    have hother : s.currentThread ≠ some t := fun hc => (h.current t hc).2.1 hinit
    rw [threadResume, if_pos (by simp)]
    exact (insert_thread (s := s.modify t _) hother).2
  dsimp only at hstartup
  rw [hcur] at hstartup
  split_ifs at hstartup with hnone
  · obtain rfl := Option.some.inj hstartup
    exact ⟨hresume, fun hne => absurd hnone hne⟩
  · obtain ⟨hinv, hhigh⟩ := hresume.schedule hstartup
    exact ⟨hinv, fun _ => hhigh⟩

/-- The priority of a thread changes, and with it its list. -/
theorem Inv.changePriority (h : Inv s) (t : Tid) {priority : Nat} (hp : priority < 32) :
    Inv (changePriority s t priority) := by
  unfold Scheduler.changePriority
  dsimp only
  have hfits : ({ s.thread t with
      currentPriority := priority, numberMask := 1#32 <<< priority } : RtThread).Fits :=
    ⟨(h.fits t).init, fun _ _ => ⟨hp, rfl⟩⟩
  split_ifs with hready
  · have hmasked := (h.fits t).mask (by rw [hready]; decide) (by rw [hready]; decide)
    have hother : s.currentThread ≠ some t := fun hc => (h.current t hc).1 hready
    obtain ⟨s₂, hs₂⟩ : ∃ s₂, s₂ = (scheduleRemoveThread s t).modify t fun thread =>
      { thread with currentPriority := priority, numberMask := 1#32 <<< priority } := ⟨_, rfl⟩
    have hself : s₂.thread t = { s.thread t with
        currentPriority := priority, numberMask := 1#32 <<< priority } := by
      rw [hs₂]
      exact thread_modify_self
    have hthread : ∀ u, u ≠ t → s₂.thread u = s.thread u := fun u hu => by
      rw [hs₂]
      exact thread_modify_ne hu
    have hcur : s₂.currentThread = s.currentThread := by rw [hs₂]; rfl
    -- the lists without it, and with it again
    have hindexed : Indexed s₂.priorityTable s₂.readyPriorityGroup s₂.prio
        fun u => s.Ready u ∧ u ≠ t := by
      have hremove := (remove_indexed h.indexed hmasked.1 hmasked.2).congr (fun _ => Iff.rfl)
        fun u hu => congrArg RtThread.currentPriority (hthread u hu.2)
      rw [hs₂] at hremove ⊢
      exact hremove
    have hinsert := insert_indexed hindexed (fun hr => hr.2 rfl)
      (by rw [State.prio, hself]; exact hp) (by rw [State.prio, hself]) (by rwa [hcur])
    obtain ⟨hthread', hcur'⟩ := insert_thread (s := s₂) (t := t) (by rwa [hcur])
    rw [← hs₂]
    refine .build hinsert (fun u => ?_) (fun u _ => ?_) (fun u => ?_) (fun u => ?_) (fun u => ?_)
    · rw [State.Ready, hthread']
      refine forall_thread_modify (P := fun u thread => thread.stat = .ready
        ↔ u = t ∨ s.Ready u ∧ u ≠ t) (by simp) (fun u hu => ?_) u
      rw [hthread u hu]
      simp [hu, State.Ready]
    · rw [State.prio, hthread']
      exact forall_thread_modify (P := fun u thread => thread.currentPriority = s₂.prio u) rfl
        (fun _ _ => rfl) u
    · rw [hthread']
      refine forall_thread_modify (P := fun _ thread => thread.Fits) ?_ (fun u hu => ?_) u
      · rw [hself]
        exact ⟨(h.fits t).init, fun _ _ => ⟨hp, rfl⟩⟩
      · rw [hthread u hu]
        exact h.fits u
    · rw [hthread', hcur', hcur]
      refine forall_thread_modify (P := fun u thread => thread.stat = .running →
        s.currentThread = some u) (by simp) (fun u hu => ?_) u
      rw [hthread u hu]
      exact h.running u
    · rw [hthread', hcur', hcur]
      refine forall_thread_modify (P := fun u thread => s.currentThread = some u →
        thread.stat ≠ .ready ∧ thread.stat ≠ .init ∧ thread.Masked)
        (fun hc => absurd hc hother) (fun u hu => ?_) u
      rw [hthread u hu]
      exact h.current u
  · exact h.change hready hready hfits (fun hr => h.running t hr) fun hc =>
      ⟨(h.current t hc).2.1, hp, rfl⟩

/-- A thread is closed. -/
theorem Inv.delete (h : Inv s) (t : Tid) : Inv (threadDelete s t) := by
  unfold threadDelete
  dsimp only
  split_ifs with hclose hinit
  · exact h
  · have hnot : ¬s.Ready t := by rw [State.Ready, hinit]; decide
    exact h.change hnot (by simp) ⟨(h.fits t).init, by simp⟩ (by simp) fun hc =>
      absurd hinit (h.current t hc).2.1
  · have hmasked := (h.fits t).mask hinit hclose
    exact h.remove hmasked (by simp) ⟨(h.fits t).init, by simp⟩ (by simp) fun _ =>
      ⟨by simp, hmasked⟩

/-- A thread is suspended. -/
theorem Inv.suspend (h : Inv s) (hsuspend : threadSuspend s t = some s') : Inv s' := by
  unfold threadSuspend at hsuspend
  dsimp only at hsuspend
  split_ifs at hsuspend with hneither
  · obtain rfl := Option.some.inj hsuspend
    exact h
  · obtain rfl := Option.some.inj hsuspend
    have hstat : (s.thread t).stat = .ready ∨ (s.thread t).stat = .running := by
      by_contra hno
      exact hneither (not_or.mp hno)
    have hmasked : (s.thread t).Masked := by
      refine (h.fits t).mask ?_ ?_
      all_goals
        rcases hstat with hr | hr <;> rw [hr] <;> decide
    exact h.remove hmasked (by simp) ⟨(h.fits t).init, fun _ _ => hmasked⟩ (by simp) fun _ =>
      ⟨by simp, hmasked⟩

/-- The scheduler is started, with the first thread of the highest priority. -/
theorem Inv.start (h : Inv s) (hstart : systemSchedulerStart s = some s') : Inv s' := by
  unfold systemSchedulerStart at hstart
  cases hcur : s.currentThread with
  | some t => simp [hcur] at hstart
  | none =>
    cases hhighest : getHighestPriorityThread s with
    | none => simp [hcur, hhighest] at hstart
    | some found =>
      obtain ⟨u, hhead, rfl⟩ := Option.map_eq_some_iff.mp hhighest
      simp only [hcur, hhighest, Option.some.injEq] at hstart
      have hready : s.Ready u := ((h.indexed.mem u _).mp (List.mem_of_mem_head? hhead)).1
      obtain ⟨hlt, hmask⟩ := (h.fits u).mask (by rw [hready]; decide) (by rw [hready]; decide)
      rw [← hstart]
      refine .put (R := s.Ready) (remove_indexed (s := { s with currentThread := some u })
        h.indexed hlt hmask) (fun _ _ => Iff.rfl) (fun v _ => h.fits v) (fun v _ hv => ?_)
        (fun v hv hc => absurd (Option.some.inj hc).symm hv) (by simp)
        ⟨(h.fits u).init, fun _ _ => ⟨hlt, hmask⟩⟩ (fun _ => rfl) fun _ => ⟨by simp, hlt, hmask⟩
      -- nobody runs before
      exact absurd (hcur.symm.trans (h.running v hv)) (by simp)

/-- The actions that end with `rt_schedule`. -/
def Reschedules (s : State Tid) : Action Tid → Prop
  | .startup _    => s.currentThread ≠ none
  | .timeout _    => True
  | .yield        => True
  | .exit         => True
  | .schedule     => True
  | .tick         => ∃ t, s.currentThread = some t ∧ (s.thread t).remainingTick = 1#32
  | .exitCritical => (s.schedulerLockNest - 1#16).toInt ≤ 0 ∧ s.currentThread ≠ none
  | _             => False

/-- **Every step keeps the invariant**, and the highest priority runs after `rt_schedule`. -/
theorem Inv.step (h : Inv s) {a : Action Tid} (hvalid : Valid s a)
    (hstep : Scheduler.step s a = some s') : Inv s' ∧ (Reschedules s a → Highest s') := by
  cases a with
  | start => exact ⟨h.start hstep, False.elim⟩
  | startup t => exact h.startup hstep
  | suspend t => exact ⟨h.suspend hstep, False.elim⟩
  | resume t =>
    obtain rfl := Option.some.inj hstep
    exact ⟨h.resume t, False.elim⟩
  | timeout t =>
    obtain ⟨hsuspend, hsched⟩ := Option.ite_none_right_eq_some.mp hstep
    obtain ⟨hinv, hhigh⟩ := (h.insert hsuspend).schedule hsched
    exact ⟨hinv, fun _ => hhigh⟩
  | yield =>
    obtain ⟨current, -, hsched⟩ := Option.bind_eq_some_iff.mp hstep
    obtain ⟨hinv, hhigh⟩ := (h.expire current).schedule hsched
    exact ⟨hinv, fun _ => hhigh⟩
  | tick =>
    obtain ⟨current, hcur, htick⟩ := Option.bind_eq_some_iff.mp hstep
    have hcount : Inv (s.modify current fun thread =>
        { thread with remainingTick := thread.remainingTick - 1#32 }) :=
      h.modify rfl rfl rfl ⟨(h.fits current).init, (h.fits current).mask⟩
    dsimp only at htick
    split_ifs at htick with hover
    · obtain ⟨hinv, hhigh⟩ := (hcount.expire current).schedule htick
      exact ⟨hinv, fun _ => hhigh⟩
    · -- the time slice is not over
      obtain rfl := Option.some.inj htick
      refine ⟨hcount, ?_⟩
      rintro ⟨t, ht, hone⟩
      obtain rfl := Option.some.inj (hcur.symm.trans ht)
      exact absurd (by simp [hone]) hover
  | changePriority t p =>
    obtain rfl := Option.some.inj hstep
    exact ⟨h.changePriority t hvalid, False.elim⟩
  | delete t =>
    obtain rfl := Option.some.inj hstep
    exact ⟨h.delete t, False.elim⟩
  | exit =>
    obtain ⟨current, hcur, hexit⟩ := Option.bind_eq_some_iff.mp hstep
    obtain ⟨-, -, hmasked⟩ := h.current current hcur
    have hclose := h.remove (f := fun thread => { thread with stat := .close, yield := false })
      hmasked (by simp) ⟨(h.fits current).init, by simp⟩ (by simp) fun _ => ⟨by simp, hmasked⟩
    obtain ⟨hinv, hhigh⟩ := hclose.schedule hexit
    exact ⟨hinv, fun _ => hhigh⟩
  | enterCritical =>
    obtain rfl := Option.some.inj hstep
    exact ⟨⟨h.indexed, h.fits, h.running, h.current⟩, False.elim⟩
  | exitCritical =>
    have hnest : ∀ nest, Inv ({ s with schedulerLockNest := nest } : State Tid) := fun _ =>
      ⟨h.indexed, h.fits, h.running, h.current⟩
    have hexit : exitCritical s = some s' := hstep
    unfold exitCritical at hexit
    dsimp only at hexit
    split_ifs at hexit with hzero hnone
    · obtain rfl := Option.some.inj hexit
      exact ⟨hnest _, fun hres => absurd hnone hres.2⟩
    · obtain ⟨hinv, hhigh⟩ := (hnest _).schedule hexit
      exact ⟨hinv, fun _ => hhigh⟩
    · obtain rfl := Option.some.inj hexit
      exact ⟨hnest _, fun hres => absurd hres.1 hzero⟩
  | schedule =>
    obtain ⟨current, -, hsched⟩ := Option.bind_eq_some_iff.mp hstep
    obtain ⟨hinv, hhigh⟩ := h.schedule hsched
    exact ⟨hinv, fun _ => hhigh⟩

omit [DecidableEq Tid] in
/-- The invariant holds when the scheduler is set up. -/
theorem inv_init {priority : Tid → Nat} {tick : Tid → BitVec 32} (h : ∀ t, priority t < 32) :
    Inv (systemSchedulerInit priority tick) := by
  have hempty : Indexed (fun _ => []) 0#32 priority fun _ : Tid => False := .empty
  refine ⟨hempty.congr (fun t => ?_) fun _ => False.elim, fun t => ⟨h t, ?_⟩, nofun, nofun⟩
  · simp [State.Ready, systemSchedulerInit, threadInit]
  · exact fun hinit => absurd rfl hinit

/-- Every run keeps the invariant. -/
theorem inv_of_runs {priority : Tid → Nat} {tick : Tid → BitVec 32} {as : List (Action Tid)}
    (hpriority : ∀ t, priority t < 32)
    (h : Runs step Valid (systemSchedulerInit priority tick) as s) : Inv s :=
  h.invariant Inv (fun _ _ _ hinv hvalid hstep => (hinv.step hvalid hstep).1)
    (inv_init hpriority)

/-- **The highest priority runs.**  In every run of threads and interrupts, each thread that is
    ready is in the list of its priority, once, and no other thread is in a list; the bitmap tells
    which lists are empty; at most one thread runs; once it is started `rt_schedule` never uses a
    thread that is not there; and after every action that ends with it no ready thread has a
    higher priority than the one that runs, unless the scheduler is locked. -/
theorem highest_runs {priority : Tid → Nat} {tick : Tid → BitVec 32} {as : List (Action Tid)}
    {a : Action Tid} (hpriority : ∀ t, priority t < 32)
    (hruns : Runs step Valid (systemSchedulerInit priority tick) as s) (hvalid : Valid s a)
    (hstep : Scheduler.step s a = some s') :
    (Reschedules s a → Highest s') ∧
      (∀ t p, t ∈ s'.priorityTable p ↔
        (s'.thread t).stat = .ready ∧ (s'.thread t).currentPriority = p) ∧
      (∀ p, (s'.priorityTable p).Nodup) ∧
      (∀ p < 32, s'.readyPriorityGroup.getLsbD p = true ↔ s'.priorityTable p ≠ []) ∧
      (∀ t, (s'.thread t).stat = .running → s'.currentThread = some t) ∧
      (s'.currentThread ≠ none → schedule s' ≠ none) := by
  obtain ⟨hinv, hhigh⟩ := (inv_of_runs hpriority hruns).step hvalid hstep
  refine ⟨hhigh, hinv.indexed.mem, hinv.indexed.nodup, hinv.indexed.bit, hinv.running,
    fun hne => ?_⟩
  obtain ⟨current, hcur⟩ := Option.ne_none_iff_exists'.mp hne
  obtain ⟨t, ht, -⟩ := schedule_scheduled hinv hcur
  rw [ht]
  exact Option.some_ne_none t

/-- Two threads of one priority, one of a higher, and the idle thread. -/
def examplePriority (t : Fin 4) : Nat := if t = 3 then 31 else if t = 2 then 4 else 8

def exampleInit : State (Fin 4) := systemSchedulerInit examplePriority fun _ => 5#32

/-- They are started; the one of the highest priority runs and suspends itself. -/
def exampleActions : List (Action (Fin 4)) :=
  [.startup 3, .startup 0, .startup 1, .startup 2, .start, .suspend 2, .schedule]

def exampleState : State (Fin 4) :=
  (checkedRun step Valid exampleInit exampleActions).get (by decide)

theorem highest_runs_example : Reschedules exampleState (.timeout 2) ∧
    ∃ s', Scheduler.step exampleState (.timeout 2) = some s' ∧ Highest s' := by
  obtain ⟨s', hs'⟩ := Option.isSome_iff_exists.mp
    (show (Scheduler.step exampleState (.timeout 2)).isSome = true by decide)
  have hpriority : ∀ t, examplePriority t < 32 := by decide
  refine ⟨trivial, s', hs', ?_⟩
  have hvalid : Valid exampleState (.timeout 2) := trivial
  exact (highest_runs hpriority (runs_checked_get (by decide)) hvalid hs').1 trivial

/-! ### Threads of one priority -/

/-- The thread `c` runs with the priority `p`, and no ready thread has a higher one. -/
structure Turn (s : State Tid) (p : Nat) (c : Tid) : Prop where
  inv : Inv s
  unlocked : s.schedulerLockNest = 0#16
  current : s.currentThread = some c
  running : (s.thread c).stat = .running
  prio : s.prio c = p
  lowest : ∀ u, s.Ready u → p ≤ s.prio u

/-- The threads after the processor went from `c` to `t`. -/
theorem switched_thread {c : Tid} (hne : t ≠ c) : (switched s c t true).thread =
    Function.update (Function.update s.thread c { s.thread c with yield := false, stat := .ready })
      t { s.thread t with stat := .running } := by
  show Function.update (handOver s c t).thread t
    { (handOver s c t).thread t with stat := .running } = _
  rw [(handOver_thread hne).1, Function.update_of_ne hne]

/-- The lists then. -/
theorem switched_table {c : Tid} (hne : t ≠ c) (p : Nat) :
    (switched s c t true).priorityTable p = (Function.update s.priorityTable (s.prio c)
      (s.priorityTable (s.prio c) ++ [c]) p).erase t := by
  have hother : ({ s.modify c ({ · with yield := false }) with
      currentThread := some t } : State Tid).currentThread ≠ some c :=
    fun heq => hne (Option.some.inj heq)
  show ((handOver s c t).priorityTable p).erase t = _
  rw [handOver, scheduleInsertThread, if_neg hother]
  simp [State.modify, State.prio]

/-- Nobody's priority changes. -/
theorem switched_prio {c : Tid} (hne : t ≠ c) (u : Tid) :
    (switched s c t true).prio u = s.prio u := by
  rw [State.prio, switched_thread hne]
  by_cases hut : u = t
  · rw [hut, Function.update_self]
    rfl
  · rw [Function.update_of_ne hut]
    by_cases huc : u = c
    · rw [huc, Function.update_self]
      rfl
    · rw [Function.update_of_ne huc]
      rfl

omit [DecidableEq Tid] in
/-- If no ready thread has the priority, its list is empty. -/
theorem Turn.table_nil {p : Nat} {c : Tid} (h : Turn s p c)
    (hnone : ∀ u, s.Ready u → s.prio u ≠ p) : s.priorityTable p = [] := by
  refine List.eq_nil_iff_forall_not_mem.mpr fun u hu => ?_
  obtain ⟨hready, hpu⟩ := (h.inv.indexed.mem u p).mp hu
  exact hnone u hready hpu

/-- **One `rt_schedule` after the time is over**: the thread goes to the end of its list, and the
    first of the list runs. -/
theorem Turn.schedule {p : Nat} {c : Tid} (h : Turn s p c) (hyield : (s.thread c).yield = true) :
    ∃ s' c', Scheduler.schedule s = some s' ∧ Turn s' p c' ∧
      c' :: s'.priorityTable p = (c :: s.priorityTable p).rotate 1 := by
  obtain ⟨s', hs', hsched⟩ := schedule_scheduled h.inv h.current
  have hinv' := (h.inv.scheduled hsched).1
  cases hsched with
  | idle hidle =>
    -- nobody else is ready
    have hnone : ∀ u, ¬s.Ready u := by
      rcases hidle with hlocked | hgroup
      · exact absurd h.unlocked hlocked
      · exact h.inv.indexed.group_eq_zero_iff.mp hgroup
    have hnil : s.priorityTable p = [] := h.table_nil fun u hu => absurd hu (hnone u)
    exact ⟨s, c, hs', h, by rw [hnil, List.rotate_singleton]⟩
  | @stays current hc _ _ hstrict =>
    obtain rfl := Option.some.inj (h.current.symm.trans hc)
    -- its time is over, so that the others are of lower priorities
    have hnil : s.priorityTable p = [] := by
      refine h.table_nil fun u hu => ?_
      have hlt := hstrict hyield u hu
      have hprio := h.prio
      omega
    refine ⟨stayed s c, c, hs', ⟨hinv', h.unlocked, h.current, ?_, ?_, fun u hu => ?_⟩, ?_⟩
    · rw [stayed_thread, Function.update_self]
    · rw [State.prio, stayed_thread, Function.update_self]
      exact h.prio
    · by_cases huc : u = c
      · rw [huc, State.Ready, stayed_thread, Function.update_self] at hu
        cases hu
      · rw [State.Ready, stayed_thread, Function.update_of_ne huc] at hu
        rw [State.prio, stayed_thread, Function.update_of_ne huc]
        exact h.lowest u hu
    · show c :: (s.priorityTable p).erase c = _
      rw [hnil, List.rotate_singleton]
      rfl
  | @switches current t rest hc ht hhead hlowest hgoes =>
    obtain rfl := Option.some.inj (h.current.symm.trans hc)
    have hpt : s.prio t = p := by
      have hge := h.lowest t ht
      have hle := (hgoes h.running).1
      have hprio := h.prio
      omega
    have hne : t ≠ c := fun heq => (h.inv.current c h.current).1 (heq ▸ ht)
    have hrun : ((s.thread c).stat == Stat.running) = true := by simpa using h.running
    rw [hrun] at hs' hinv'
    have hprio' := switched_prio (s := s) hne
    refine ⟨_, t, hs', ⟨hinv', ?_, (handOver_thread hne).2, ?_, by rw [hprio', hpt],
      fun u hu => ?_⟩, ?_⟩
    · show (handOver s c t).schedulerLockNest = 0#16
      rw [handOver, scheduleInsertThread, if_neg fun heq => hne (Option.some.inj heq)]
      exact h.unlocked
    · rw [switched_thread hne, Function.update_self]
    · rw [hprio']
      by_cases huc : u = c
      · exact Nat.le_of_eq (huc ▸ h.prio.symm)
      · refine h.lowest u ?_
        by_cases hut : u = t
        · exact hut ▸ ht
        · rwa [State.Ready, switched_thread hne, Function.update_of_ne hut,
            Function.update_of_ne huc] at hu
    · rw [hpt] at hhead
      rw [switched_table hne, h.prio, Function.update_self, hhead, List.rotate_cons_succ,
        List.rotate_zero]
      simp

/-- **One call of `rt_thread_yield`.** -/
theorem Turn.yield {p : Nat} {c : Tid} (h : Turn s p c) :
    ∃ s' c', threadYield s = some s' ∧ Turn s' p c' ∧
      c' :: s'.priorityTable p = (c :: s.priorityTable p).rotate 1 := by
  obtain ⟨s₂, hs₂⟩ : ∃ s₂, s₂ = s.modify c fun thread =>
    { thread with remainingTick := thread.initTick, yield := true } := ⟨_, rfl⟩
  have hself : s₂.thread c =
      { s.thread c with remainingTick := (s.thread c).initTick, yield := true } := by
    rw [hs₂]
    exact thread_modify_self
  have hturn : Turn s₂ p c := by
    refine ⟨hs₂ ▸ h.inv.expire c, by rw [hs₂]; exact h.unlocked, by rw [hs₂]; exact h.current,
      by rw [hself]; exact h.running, by rw [State.prio, hself]; exact h.prio, fun u hu => ?_⟩
    by_cases huc : u = c
    · rw [huc, State.prio, hself]
      exact Nat.le_of_eq h.prio.symm
    · rw [hs₂, State.Ready, thread_modify_ne huc] at hu
      rw [hs₂, State.prio, thread_modify_ne huc]
      exact h.lowest u hu
  obtain ⟨s', c', hsched, hturn', hrotate⟩ := hturn.schedule (by rw [hself])
  refine ⟨s', c', ?_, hturn', ?_⟩
  · rw [threadYield, h.current, ← hsched, hs₂]
    rfl
  · rw [hrotate, hs₂]
    rfl

/-- Calls of `rt_thread_yield`, by whoever runs. -/
def yields : Nat → State Tid → Option (State Tid)
  | 0,     s => some s
  | k + 1, s => (threadYield s).bind (yields k)

/-- **Threads of one priority take turns.**  From every state a run leads to in which a thread runs
    and no thread of a higher priority is ready, `k` calls of `rt_thread_yield` turn the threads of
    its priority `k` times: after as many calls as there are threads, each ran once, and
    the first runs again. -/
theorem yields_rotate {priority : Tid → Nat} {tick : Tid → BitVec 32} {as : List (Action Tid)}
    {c : Tid} (hpriority : ∀ t, priority t < 32)
    (hruns : Runs step Valid (systemSchedulerInit priority tick) as s)
    (hunlocked : s.schedulerLockNest = 0#16) (hcur : s.currentThread = some c)
    (hrunning : (s.thread c).stat = .running) (hlowest : ∀ u, s.Ready u → s.prio c ≤ s.prio u)
    (k : Nat) :
    ∃ s' c', yields k s = some s' ∧ s'.currentThread = some c' ∧ (s'.thread c').stat = .running ∧
      c' :: s'.priorityTable (s.prio c) = (c :: s.priorityTable (s.prio c)).rotate k := by
  have hturn : ∀ k (s : State Tid) c p, Turn s p c → ∃ s' c', yields k s = some s' ∧ Turn s' p c' ∧
      c' :: s'.priorityTable p = (c :: s.priorityTable p).rotate k := by
    intro k
    induction k with
    | zero => exact fun s c p h => ⟨s, c, rfl, h, (List.rotate_zero _).symm⟩
    | succ k ih =>
      intro s c p h
      obtain ⟨s₂, c₂, hyield, hturn, hrotate⟩ := h.yield
      obtain ⟨s', c', hyields, hturn', hrotate'⟩ := ih s₂ c₂ p hturn
      refine ⟨s', c', ?_, hturn', ?_⟩
      · rw [yields, hyield]
        exact hyields
      · rw [hrotate', hrotate, List.rotate_rotate, Nat.add_comm]
  obtain ⟨s', c', hyields, hturn', hrotate⟩ := hturn k s c (s.prio c)
    ⟨inv_of_runs hpriority hruns, hunlocked, hcur, hrunning, rfl, hlowest⟩
  exact ⟨s', c', hyields, hturn'.current, hturn'.running, hrotate⟩

theorem yields_rotate_example : ∃ s' c', yields 1 exampleState = some s' ∧
    s'.currentThread = some c' ∧ (s'.thread c').stat = .running ∧
    c' :: s'.priorityTable (exampleState.prio 0)
      = (0 :: exampleState.priorityTable (exampleState.prio 0)).rotate 1 := by
  have hpriority : ∀ t, examplePriority t < 32 := by decide
  have hlowest : ∀ u, exampleState.Ready u → exampleState.prio 0 ≤ exampleState.prio u := by
    simp only [State.Ready]
    decide
  exact yields_rotate hpriority (runs_checked_get (by decide)) (by decide) (by decide) (by decide)
    hlowest 1

end Steps

end RtCharger.Kernel.Scheduler
