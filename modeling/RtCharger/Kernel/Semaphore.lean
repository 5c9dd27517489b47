import RtCharger.Kernel.Event

namespace RtCharger.Kernel

/-!
# The kernel's semaphore

`rt_sem_take` with a time-out that is not zero and `rt_sem_release` of `ipc.c`, for a semaphore
made with `RT_IPC_FLAG_FIFO`, and what `rt_thread_timeout` does to a thread that waits for it.
-/

/-- `RT_SEM_VALUE_MAX`. -/
def rtSemValueMax : Nat := 0xffff

/-- `struct rt_semaphore`: the value and the suspended threads, longest waiting first. -/
structure RtSemaphore (Tid : Type) where
  value : Nat
  suspendThread : List Tid
deriving DecidableEq, Repr

variable {Tid : Type}

/-- `rt_sem_create(name, 0, RT_IPC_FLAG_FIFO)`. -/
def rtSemCreate (Tid : Type) : RtSemaphore Tid := ⟨0, []⟩

/-- `rt_sem_take`: whether the thread goes on, and the semaphore afterwards; a thread that does
    not is suspended. -/
def rtSemTake (sem : RtSemaphore Tid) (t : Tid) : Bool × RtSemaphore Tid :=
  if 0 < sem.value then (true, { sem with value := sem.value - 1 })
  else (false, { sem with suspendThread := sem.suspendThread ++ [t] })

/-- `rt_sem_release`: the status, the semaphore afterwards, and the thread that is resumed. -/
def rtSemRelease (sem : RtSemaphore Tid) : RtErr × RtSemaphore Tid × Option Tid :=
  match sem.suspendThread with
  | t :: ts => (.ok, { sem with suspendThread := ts }, some t)
  | []      =>
    if sem.value < rtSemValueMax then (.ok, { sem with value := sem.value + 1 }, none)
    else (.full, sem, none)

/-- A release that finds nobody suspended is kept, also when the value is at its end. -/
theorem rtSemRelease_idle {sem : RtSemaphore Tid} (h : sem.suspendThread = []) :
    ∃ err value, rtSemRelease sem = (err, ⟨value, []⟩, none) ∧ 0 < value := by
  obtain ⟨value, suspendThread⟩ := sem
  subst h
  by_cases hmax : value < rtSemValueMax
  · exact ⟨.ok, value + 1, if_pos hmax, Nat.succ_pos value⟩
  · exact ⟨.full, value, if_neg hmax, Nat.lt_of_lt_of_le (by decide) (Nat.not_lt.mp hmax)⟩

/-- The time-out of a suspended thread: it is taken off the list. -/
def rtSemTimeout [DecidableEq Tid] (sem : RtSemaphore Tid) (t : Tid) : Option (RtSemaphore Tid) :=
  if t ∈ sem.suspendThread then
    some { sem with suspendThread := sem.suspendThread.filter fun u => decide (u ≠ t) }
  else none

end RtCharger.Kernel
