import RtCharger.Kernel.Event

namespace RtCharger.Kernel

/-!
# The kernel's mutex

`rt_mutex_take` (with an infinite time-out) and `rt_mutex_release` of `ipc.c`.  A thread that
`rt_mutex_take` suspends is not enabled; the hand-over to the first suspended thread is a
release followed by that thread's `take`.  Priorities are left out.

* `take_free`, `take_held`, `release_held` — what happens to a mutex that nobody takes twice.
-/

/-- `RT_MUTEX_VALUE_MAX`. -/
def rtMutexValueMax : Nat := 0xffff

/-- `RT_MUTEX_HOLD_MAX`. -/
def rtMutexHoldMax : Nat := 0xff

/-- `struct rt_mutex`. -/
structure RtMutex (Tid : Type) where
  value : Nat
  owner : Option Tid
  hold : Nat
deriving DecidableEq, Repr

/-- `rt_mutex_init`. -/
def rtMutexInit (Tid : Type) : RtMutex Tid := ⟨1, none, 0⟩

variable {Tid : Type} [DecidableEq Tid]

/-- `rt_mutex_take` of thread `t`: the status and the mutex afterwards, `none` while `t` is
    suspended. -/
def rtMutexTake (m : RtMutex Tid) (t : Tid) : Option (RtErr × RtMutex Tid) :=
  -- the owner takes it again: only the number of holds changes
  if m.owner = some t then
    if m.hold < rtMutexHoldMax then some (.ok, { m with hold := m.hold + 1 })
    else some (.full, m)
  else if 0 < m.value then
    let m' := { m with value := m.value - 1, owner := some t }
    if m.hold < rtMutexHoldMax then some (.ok, { m' with hold := m.hold + 1 })
    else some (.full, m')
  else none

/-- `rt_mutex_release` of thread `t`: the status and the mutex afterwards. -/
def rtMutexRelease (m : RtMutex Tid) (t : Tid) : RtErr × RtMutex Tid :=
  if m.owner ≠ some t then (.error, m)
  else
    let m' := { m with hold := m.hold - 1 }
    -- the last hold: the mutex is free again
    if m'.hold = 0 then
      if m.value < rtMutexValueMax then (.ok, { m' with value := m.value + 1, owner := none })
      else (.full, m')
    else (.ok, m')

/-! ### Taken at most once -/

/-- The mutex in the hands of `o`, taken once, or free. -/
def mutexOf (o : Option Tid) : RtMutex Tid :=
  match o with
  | none   => rtMutexInit Tid
  | some t => ⟨0, some t, 1⟩

omit [DecidableEq Tid] in
@[simp] theorem mutexOf_owner (o : Option Tid) : (mutexOf o).owner = o := by
  cases o <;> rfl

/-- A free mutex is taken at once. -/
@[simp] theorem take_free (t : Tid) : rtMutexTake (mutexOf none) t = some (.ok, mutexOf (some t)) := by
  simp [rtMutexTake, mutexOf, rtMutexInit, rtMutexHoldMax]

/-- Another thread's mutex suspends. -/
theorem take_held {t u : Tid} (hne : u ≠ t) : rtMutexTake (mutexOf (some u)) t = none := by
  simp [rtMutexTake, mutexOf, hne]

/-- The owner frees the mutex. -/
@[simp] theorem release_held (t : Tid) : rtMutexRelease (mutexOf (some t)) t = (.ok, mutexOf none) := by
  simp [rtMutexRelease, mutexOf, rtMutexInit, rtMutexValueMax]

end RtCharger.Kernel
