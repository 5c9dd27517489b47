import RtCharger.Kernel.Mutex
import RtCharger.Lib.AutoReset
import RtCharger.Os.CompactedEventSet

namespace RtCharger.Os.Queue

open Kernel

/-!
# `Queue`

The blocking queue through which all deferred work goes (`queue.hxx`), with any number of
threads inside `push`, `pop` and `empty` at once.  `pop` gives the mutex back by hand while it
waits, in the middle of a scoped lock.

The member `e` is the auto-reset event that an `Event` is for its clients
(`EventIsolation.lean`); it may start signalled.  The mutex is the kernel's.

* `next`, `step` — what a thread does next;
* `Nexted` — the same step by step, with the mutex accounted for;
* `Inv`, `step_inv` — the mutex is in the hands of the one thread that is in a locked section,
  and the suspended threads are those the event knows of.
-/

variable {Tid T : Type}

/-- Where a thread is in its call. -/
inductive Pc (T : Type) where
  | idle
  | pushLock (t : T)
  | pushInsert (t : T)
  | pushSet
  | pushUnlock
  | popLock
  | popTest
  | popUnlock
  | popWait
  | popSuspended
  | popRelock
  | popTake
  | popReturn (result : T)
  | emptyLock
  | emptyTest
  | emptyUnlock (result : Bool)
deriving DecidableEq, Repr

/-- The calls. -/
inductive Call (T : Type) where
  | push (t : T)
  | pop
  | empty
deriving DecidableEq, Repr

/-- The members of `Queue`, the threads, and what has gone through. -/
structure State (Tid T : Type) where
  q : List T
  m : RtMutex Tid
  e : AutoReset.State Tid
  pc : Tid → Pc T
  /-- The values pushed, in the order of their insertions. -/
  inserted : List T
  /-- The values popped and who popped them, in the order of their removals. -/
  removed : List (Tid × T)
  /-- The values that calls of `pop` have returned, in that order. -/
  returned : List (Tid × T)

/-- An empty queue, every thread outside; the event may be signalled. -/
def initial (Tid T : Type) (signalled : Bool) : State Tid T :=
  ⟨[], rtMutexInit Tid, { AutoReset.initial with flag := signalled }, fun _ => .idle, [], [], []⟩

/-- The actions: a thread calls, or takes the next step of its call. -/
inductive Act (Tid T : Type) where
  | call (t : Tid) (c : Call T)
  | next (t : Tid)
deriving DecidableEq, Repr

/-- Where a call begins. -/
def Call.entry : Call T → Pc T
  | .push t => .pushLock t
  | .pop    => .popLock
  | .empty  => .emptyLock

/-- The default argument of `Event::wait`, as the kernel gets it. -/
def waitForever : Int := CompactedEventSet.rtTimeout CompactedEventSet.millisecondsMax

variable [DecidableEq Tid]

/-- Thread `t` goes on to `pc`. -/
def State.goto (s : State Tid T) (t : Tid) (pc : Pc T) : State Tid T :=
  { s with pc := Function.update s.pc t pc }

/-- `m.lock()`, whose result nobody looks at. -/
def State.lock (s : State Tid T) (t : Tid) (pc : Pc T) : Option (State Tid T) :=
  (rtMutexTake s.m t).map fun r => { s with m := r.2 }.goto t pc

/-- `m.unlock()`. -/
def State.unlock (s : State Tid T) (t : Tid) (pc : Pc T) : State Tid T :=
  { s with m := (rtMutexRelease s.m t).2 }.goto t pc

/-- `e.set()`: the kernel resumes the thread that waits longest, if there is one. -/
def State.set (s : State Tid T) : State Tid T :=
  let s' := { s with e := AutoReset.set s.e }
  match AutoReset.woken s.e with
  | some u => s'.goto u .popRelock
  | none   => s'

/-- `e.wait()`: the thread goes on or is suspended. -/
def State.wait (s : State Tid T) (t : Tid) : State Tid T :=
  { s with e := AutoReset.wait s.e t waitForever }.goto t
    (if s.e.flag then .popRelock else .popSuspended)

/-- The next step of thread `t`.  A suspended thread has none; to take the front of an empty
    `std::queue` is undefined. -/
def next (s : State Tid T) (t : Tid) : Option (State Tid T) :=
  match s.pc t with
  | .idle          => none
  | .pushLock v    => s.lock t (.pushInsert v)
  | .pushInsert v  =>
    some ({ s with q := s.q ++ [v], inserted := s.inserted ++ [v] }.goto t .pushSet)
  | .pushSet       => some (s.set.goto t .pushUnlock)
  | .pushUnlock    => some (s.unlock t .idle)
  | .popLock       => s.lock t .popTest
  | .popTest       => some (s.goto t (if s.q.isEmpty then .popUnlock else .popTake))
  | .popUnlock     => some (s.unlock t .popWait)
  -- the mutex is free here: other threads may push before the wait begins
  | .popWait       => some (s.wait t)
  | .popSuspended  => none
  | .popRelock     => s.lock t .popTest
  | .popTake       =>
    match s.q with
    | []     => none
    | v :: q => some ({ s with q := q, removed := s.removed ++ [(t, v)] }.goto t (.popReturn v))
  -- the destructor of the scoped lock
  | .popReturn v   => some ({ s with returned := s.returned ++ [(t, v)] }.unlock t .idle)
  | .emptyLock     => s.lock t .emptyTest
  | .emptyTest     => some (s.goto t (.emptyUnlock s.q.isEmpty))
  | .emptyUnlock _ => some (s.unlock t .idle)

/-- One action. -/
def step (s : State Tid T) : Act Tid T → Option (State Tid T)
  | .call t c =>
    match s.pc t with
    | .idle => some (s.goto t c.entry)
    | _     => none
  | .next t => next s t

/-! ### Places -/

/-- The thread is between taking the mutex and giving it back. -/
def Pc.holds : Pc T → Bool
  | .pushInsert _ | .pushSet | .pushUnlock | .popTest | .popUnlock | .popTake | .popReturn _
  | .emptyTest | .emptyUnlock _ => true
  | _ => false

/-- The next step reads or writes the underlying `std::queue`. -/
def Pc.accesses : Pc T → Bool
  | .pushInsert _ | .popTest | .popTake | .emptyTest => true
  | _ => false

/-- The value that a `pop` has taken and not returned yet. -/
def Pc.result : Pc T → List T
  | .popReturn v => [v]
  | _            => []

/-- The steps that take the mutex. -/
inductive Locks : Pc T → Pc T → Prop
  | push (v : T) : Locks (.pushLock v) (.pushInsert v)
  | pop : Locks .popLock .popTest
  | repop : Locks .popRelock .popTest
  | empty : Locks .emptyLock .emptyTest

/-- The steps that give it back. -/
inductive Unlocks : Pc T → Pc T → Prop
  | push : Unlocks .pushUnlock .idle
  | pop : Unlocks .popUnlock .popWait
  | empty (b : Bool) : Unlocks (.emptyUnlock b) .idle

theorem Locks.holds {pc pc' : Pc T} (h : Locks pc pc') : pc.holds = false ∧ pc'.holds = true := by
  cases h <;> exact ⟨rfl, rfl⟩

theorem Unlocks.holds {pc pc' : Pc T} (h : Unlocks pc pc') :
    pc.holds = true ∧ pc'.holds = false := by
  cases h <;> exact ⟨rfl, rfl⟩

theorem Locks.ne_suspended {pc pc' : Pc T} (h : Locks pc pc') :
    pc ≠ .popSuspended ∧ pc' ≠ .popSuspended := by
  cases h <;> exact ⟨nofun, nofun⟩

theorem Unlocks.ne_suspended {pc pc' : Pc T} (h : Unlocks pc pc') :
    pc ≠ .popSuspended ∧ pc' ≠ .popSuspended := by
  cases h <;> exact ⟨nofun, nofun⟩

theorem Pc.holds_of_accesses {pc : Pc T} (h : pc.accesses = true) : pc.holds = true := by
  cases pc <;> first | rfl | cases h

/-! ### Who holds the mutex -/

omit [DecidableEq Tid] in
/-- The mutex is in the hands of the thread in a locked section, or free if there is none. -/
def LockInv (s : State Tid T) : Prop :=
  ∃ o, s.m = mutexOf o ∧ ∀ u, (s.pc u).holds = true ↔ o = some u

omit [DecidableEq Tid] in
/-- There is only one such thread. -/
theorem LockInv.unique {s : State Tid T} (h : LockInv s) {t u : Tid}
    (ht : (s.pc t).holds = true) (hu : (s.pc u).holds = true) : u = t := by
  obtain ⟨o, _, ho⟩ := h
  exact Option.some.inj (((ho u).mp hu).symm.trans ((ho t).mp ht))

omit [DecidableEq Tid] in
theorem LockInv.owner {s : State Tid T} (h : LockInv s) {t : Tid}
    (ht : (s.pc t).holds = true) : s.m = mutexOf (some t) := by
  obtain ⟨o, hm, ho⟩ := h
  rw [hm, (ho t).mp ht]

omit [DecidableEq Tid] in
/-- Another thread is outside the locked sections. -/
theorem LockInv.other {s : State Tid T} (h : LockInv s) {t u : Tid}
    (ht : (s.pc t).holds = true) (hne : u ≠ t) : (s.pc u).holds = false := by
  by_contra hu
  exact hne (h.unique ht (by simpa using hu))

/-- What the next step of thread `t` is, with the mutex accounted for. -/
inductive Nexted (s : State Tid T) (t : Tid) : State Tid T → Prop
  | lock {pc' : Pc T} (h : Locks (s.pc t) pc') (hfree : ∀ u, (s.pc u).holds = false) :
      Nexted s t ({ s with m := mutexOf (some t) }.goto t pc')
  | unlock {pc' : Pc T} (h : Unlocks (s.pc t) pc') :
      Nexted s t ({ s with m := mutexOf none }.goto t pc')
  | insert {v : T} (h : s.pc t = .pushInsert v) :
      Nexted s t ({ s with q := s.q ++ [v], inserted := s.inserted ++ [v] }.goto t .pushSet)
  | set (h : s.pc t = .pushSet) : Nexted s t (s.set.goto t .pushUnlock)
  | testEmpty (h : s.pc t = .popTest) (hq : s.q = []) : Nexted s t (s.goto t .popUnlock)
  | testFull (h : s.pc t = .popTest) (hq : s.q ≠ []) : Nexted s t (s.goto t .popTake)
  | wait (h : s.pc t = .popWait) : Nexted s t (s.wait t)
  | take {v : T} {q : List T} (h : s.pc t = .popTake) (hq : s.q = v :: q) :
      Nexted s t ({ s with q := q, removed := s.removed ++ [(t, v)] }.goto t (.popReturn v))
  | ret {v : T} (h : s.pc t = .popReturn v) :
      Nexted s t
        ({ s with returned := s.returned ++ [(t, v)], m := mutexOf none }.goto t .idle)
  | look (h : s.pc t = .emptyTest) : Nexted s t (s.goto t (.emptyUnlock s.q.isEmpty))

/-- Taking the mutex succeeds only when no thread is in a locked section. -/
theorem LockInv.lock_eq {s s' : State Tid T} (hl : LockInv s) {t : Tid} {pc' : Pc T}
    (ht : (s.pc t).holds = false) (h : s.lock t pc' = some s') :
    (∀ u, (s.pc u).holds = false) ∧ s' = { s with m := mutexOf (some t) }.goto t pc' := by
  obtain ⟨o, hm, ho⟩ := hl
  rw [State.lock, hm] at h
  cases o with
  | none =>
    -- the mutex is free, so nobody is in a locked section
    refine ⟨?_, ?_⟩
    · intro u
      by_contra hu
      exact nomatch (ho u).mp (by simpa using hu)
    · rw [take_free] at h
      exact (Option.some.inj h).symm
  | some u =>
    -- `t` would be suspended
    have hne : u ≠ t := by
      rintro rfl
      rw [(ho u).mpr rfl] at ht
      cases ht
    rw [take_held hne] at h
    cases h

/-- Giving the mutex back frees it. -/
theorem LockInv.unlock_eq {s : State Tid T} (hl : LockInv s) {t : Tid} (pc' : Pc T)
    (ht : (s.pc t).holds = true) : s.unlock t pc' = { s with m := mutexOf none }.goto t pc' := by
  rw [State.unlock, hl.owner ht, release_held]

theorem next_nexted {s s' : State Tid T} {t : Tid} (hl : LockInv s) (h : next s t = some s') :
    Nexted s t s' := by
  -- most places only take the mutex or give it back
  have hlock : ∀ pc', Locks (s.pc t) pc' → s.lock t pc' = some s' → Nexted s t s' := by
    intro pc' hlk hs
    obtain ⟨hfree, rfl⟩ := hl.lock_eq hlk.holds.1 hs
    exact .lock hlk hfree
  have hunlock : ∀ pc', Unlocks (s.pc t) pc' → some (s.unlock t pc') = some s' →
      Nexted s t s' := by
    intro pc' hul hs
    obtain rfl := Option.some.inj hs
    rw [hl.unlock_eq pc' hul.holds.1]
    exact .unlock hul
  unfold next at h
  cases hpc : s.pc t with
  | idle => simp [hpc] at h
  | pushLock v =>
    simp only [hpc] at h
    exact hlock _ (hpc ▸ .push v) h
  | pushInsert v =>
    simp only [hpc] at h
    obtain rfl := Option.some.inj h
    exact .insert hpc
  | pushSet =>
    simp only [hpc] at h
    obtain rfl := Option.some.inj h
    exact .set hpc
  | pushUnlock =>
    simp only [hpc] at h
    exact hunlock _ (hpc ▸ .push) h
  | popLock =>
    simp only [hpc] at h
    exact hlock _ (hpc ▸ .pop) h
  | popTest =>
    simp only [hpc] at h
    obtain rfl := Option.some.inj h
    -- an empty queue is left to wait on the event
    by_cases hq : s.q = []
    · rw [if_pos (by simp [hq])]
      exact .testEmpty hpc hq
    · rw [if_neg (by simp [hq])]
      exact .testFull hpc hq
  | popUnlock =>
    simp only [hpc] at h
    exact hunlock _ (hpc ▸ .pop) h
  | popWait =>
    simp only [hpc] at h
    obtain rfl := Option.some.inj h
    exact .wait hpc
  | popSuspended => simp [hpc] at h
  | popRelock =>
    simp only [hpc] at h
    exact hlock _ (hpc ▸ .repop) h
  | popTake =>
    simp only [hpc] at h
    split at h
    · cases h
    · rename_i hq
      obtain rfl := Option.some.inj h
      exact .take hpc hq
  | popReturn v =>
    simp only [hpc] at h
    obtain rfl := Option.some.inj h
    -- the mutex is given back and the value returned in one step
    have hm := release_held t
    rw [← hl.owner (by rw [hpc]; rfl)] at hm
    simp only [State.unlock, hm]
    exact .ret hpc
  | emptyLock =>
    simp only [hpc] at h
    exact hlock _ (hpc ▸ .empty) h
  | emptyTest =>
    simp only [hpc] at h
    obtain rfl := Option.some.inj h
    exact .look hpc
  | emptyUnlock b =>
    simp only [hpc] at h
    exact hunlock _ (hpc ▸ .empty b) h

/-! ### What a step leaves alone -/

section

variable (s : State Tid T) (t : Tid) (pc' : Pc T)

@[simp] theorem goto_q : (s.goto t pc').q = s.q := rfl
@[simp] theorem goto_m : (s.goto t pc').m = s.m := rfl
@[simp] theorem goto_e : (s.goto t pc').e = s.e := rfl
@[simp] theorem goto_pc : (s.goto t pc').pc = Function.update s.pc t pc' := rfl
@[simp] theorem goto_inserted : (s.goto t pc').inserted = s.inserted := rfl
@[simp] theorem goto_removed : (s.goto t pc').removed = s.removed := rfl
@[simp] theorem goto_returned : (s.goto t pc').returned = s.returned := rfl

@[simp] theorem set_q : s.set.q = s.q := by unfold State.set; split <;> rfl
@[simp] theorem set_m : s.set.m = s.m := by unfold State.set; split <;> rfl
@[simp] theorem set_e : s.set.e = AutoReset.set s.e := by unfold State.set; split <;> rfl
@[simp] theorem set_inserted : s.set.inserted = s.inserted := by unfold State.set; split <;> rfl
@[simp] theorem set_removed : s.set.removed = s.removed := by unfold State.set; split <;> rfl
@[simp] theorem set_returned : s.set.returned = s.returned := by unfold State.set; split <;> rfl

end

/-- The queue is changed only by a thread that holds the mutex. -/
theorem Nexted.q_eq {s s' : State Tid T} {t : Tid} (h : Nexted s t s') :
    s'.q = s.q ∨ (s.pc t).holds = true := by
  cases h with
  | insert hpc => exact .inr (by rw [hpc]; rfl)
  | take hpc _ => exact .inr (by rw [hpc]; rfl)
  | set => exact .inl (by simp)
  | wait => exact .inl rfl
  | _ => exact .inl rfl

/-! ### The invariant -/

omit [DecidableEq Tid] in
/-- The mutex and the event know the threads. -/
structure Inv (s : State Tid T) : Prop where
  lock : LockInv s
  wellFormed : AutoReset.WellFormed s.e
  suspended : ∀ u, s.pc u = .popSuspended ↔ u ∈ AutoReset.suspended s.e
  nodup : (AutoReset.suspended s.e).Nodup

/-- `e.set()` moves at most one thread, and only one that was suspended. -/
theorem Inv.set_pc {s : State Tid T} (h : Inv s) :
    (AutoReset.suspended s.e = [] ∧ s.set.pc = s.pc) ∨
      ∃ w ws, AutoReset.suspended s.e = w :: ws ∧ s.pc w = .popSuspended ∧
        s.set.pc = Function.update s.pc w .popRelock := by
  cases hw : AutoReset.suspended s.e with
  | nil => exact .inl ⟨rfl, by simp [State.set, AutoReset.woken_eq, hw]⟩
  | cons w ws =>
    refine .inr ⟨w, ws, rfl, (h.suspended w).mpr (by simp [hw]), ?_⟩
    simp [State.set, AutoReset.woken_eq, hw]

/-- A step of `t` moves another thread only by waking it. -/
theorem Nexted.pc_other {s s' : State Tid T} {t u : Tid} (hinv : Inv s) (h : Nexted s t s')
    (hne : u ≠ t) :
    s'.pc u = s.pc u ∨ (s.pc u = .popSuspended ∧ s'.pc u = .popRelock) := by
  cases h with
  | set hpc =>
    rcases hinv.set_pc with ⟨_, hsame⟩ | ⟨w, ws, _, hsusp, hset⟩
    · exact .inl (by simp [hne, hsame])
    · by_cases hu : u = w
      · subst hu
        exact .inr ⟨hsusp, by simp [hne, hset]⟩
      · exact .inl (by simp [hne, hset, hu])
  | wait => exact .inl (by simp [State.wait, hne])
  | _ => exact .inl (by simp [hne])

omit [DecidableEq Tid] in
/-- A step that keeps the mutex and moves no thread into or out of a locked section. -/
theorem LockInv.keep {s s' : State Tid T} (h : LockInv s) (hm : s'.m = s.m)
    (hpc : ∀ u, (s'.pc u).holds = (s.pc u).holds) : LockInv s' := by
  obtain ⟨o, ho, hiff⟩ := h
  exact ⟨o, hm.trans ho, fun u => by rw [hpc u]; exact hiff u⟩

theorem holds_update {pc : Tid → Pc T} {t : Tid} {pc' : Pc T} (h : pc'.holds = (pc t).holds)
    (u : Tid) : (Function.update pc t pc' u).holds = (pc u).holds := by
  by_cases hu : u = t
  · subst hu
    rw [Function.update_self, h]
  · rw [Function.update_of_ne hu]

theorem Nexted.lockInv {s s' : State Tid T} {t : Tid} (hinv : Inv s) (h : Nexted s t s') :
    LockInv s' := by
  cases h with
  | lock hlk hfree =>
    refine ⟨some t, rfl, fun u => ?_⟩
    by_cases hu : u = t
    · subst hu
      simp [hlk.holds.2]
    · simp [hu, hfree u, Ne.symm hu]
  | unlock hul =>
    refine ⟨none, rfl, fun u => ?_⟩
    by_cases hu : u = t
    · subst hu
      simp [hul.holds.2]
    · simp [hu, hinv.lock.other hul.holds.1 hu]
  | ret hpc =>
    refine ⟨none, rfl, fun u => ?_⟩
    by_cases hu : u = t
    · subst hu
      simp [Pc.holds]
    · simp [hu, hinv.lock.other (t := t) (by rw [hpc]; rfl) hu]
  | set hpc =>
    refine hinv.lock.keep (by simp) fun u => ?_
    rw [goto_pc]
    rcases hinv.set_pc with ⟨_, hsame⟩ | ⟨w, ws, _, hsusp, hset⟩
    · rw [hsame]
      exact holds_update (by rw [hpc]; rfl) u
    · -- the thread that wakes still has to take the mutex
      have hne : t ≠ w := by
        rintro rfl
        rw [hpc] at hsusp
        cases hsusp
      rw [hset]
      rw [holds_update (by rw [Function.update_of_ne hne, hpc]; rfl) u]
      exact holds_update (by rw [hsusp]; rfl) u
  | wait hpc =>
    refine hinv.lock.keep rfl (holds_update ?_)
    rw [hpc]
    split <;> rfl
  | insert hpc => exact hinv.lock.keep rfl (holds_update (by rw [hpc]; rfl))
  | testEmpty hpc _ => exact hinv.lock.keep rfl (holds_update (by rw [hpc]; rfl))
  | testFull hpc _ => exact hinv.lock.keep rfl (holds_update (by rw [hpc]; rfl))
  | take hpc _ => exact hinv.lock.keep rfl (holds_update (by rw [hpc]; rfl))
  | look hpc => exact hinv.lock.keep rfl (holds_update (by rw [hpc]; rfl))

/-- A thread that neither was nor gets suspended moves. -/
theorem Inv.suspended_update {s : State Tid T} (h : Inv s) {t : Tid} {pc' : Pc T}
    (ht : s.pc t ≠ .popSuspended) (hpc' : pc' ≠ .popSuspended) (u : Tid) :
    Function.update s.pc t pc' u = .popSuspended ↔ u ∈ AutoReset.suspended s.e := by
  rw [← h.suspended u]
  by_cases hu : u = t
  · subst hu
    simp [ht, hpc']
  · rw [Function.update_of_ne hu]

/-- A step of such a thread that leaves the event alone. -/
theorem Inv.keep {s s' : State Tid T} (h : Inv s) (hl : LockInv s') {t : Tid} {pc' : Pc T}
    (he : s'.e = s.e) (hpc : s'.pc = Function.update s.pc t pc')
    (ht : s.pc t ≠ .popSuspended) (hpc' : pc' ≠ .popSuspended) : Inv s' := by
  refine ⟨hl, ?_, ?_, ?_⟩
  · rw [he]
    exact h.wellFormed
  · intro u
    rw [he, hpc]
    exact h.suspended_update ht hpc' u
  · rw [he]
    exact h.nodup

theorem waitForever_ne_zero : waitForever ≠ 0 := by decide

/-- The thread joins the waiters exactly when it is suspended. -/
theorem Inv.wait {s : State Tid T} (h : Inv s) {t : Tid} (hpc : s.pc t = .popWait)
    (hl : LockInv (s.wait t)) : Inv (s.wait t) := by
  have ht : s.pc t ≠ .popSuspended := by
    rw [hpc]
    exact nofun
  have hwait := AutoReset.suspended_wait s.e t waitForever_ne_zero
  refine ⟨hl, AutoReset.wait_wellFormed h.wellFormed t waitForever, ?_, ?_⟩
  · intro u
    show Function.update s.pc t _ u = _ ↔ u ∈ AutoReset.suspended (AutoReset.wait s.e t waitForever)
    rw [hwait]
    by_cases hf : s.e.flag = true
    · rw [if_pos hf, if_pos hf]
      exact h.suspended_update ht (by exact nofun) u
    · -- the event is clear: `t` is suspended, at the end of the list
      rw [if_neg hf, if_neg hf, List.mem_append, List.mem_singleton, ← h.suspended u]
      by_cases hu : u = t
      · subst hu
        simp
      · simp [hu]
  · show (AutoReset.suspended (AutoReset.wait s.e t waitForever)).Nodup
    rw [hwait]
    split
    · exact h.nodup
    · refine List.nodup_append.mpr ⟨h.nodup, List.nodup_singleton t, ?_⟩
      rintro u hu v hv rfl
      rw [List.mem_singleton] at hv
      subst hv
      exact ht ((h.suspended u).mpr hu)

/-- The thread that `e.set()` wakes leaves the waiters. -/
theorem Inv.set {s : State Tid T} (h : Inv s) {t : Tid} (hpc : s.pc t = .pushSet)
    (hl : LockInv (s.set.goto t .pushUnlock)) : Inv (s.set.goto t .pushUnlock) := by
  have ht : s.pc t ≠ .popSuspended := by
    rw [hpc]
    exact nofun
  refine ⟨hl, ?_, ?_, ?_⟩
  · simpa using AutoReset.set_wellFormed h.wellFormed
  · intro u
    rcases h.set_pc with ⟨hnone, hsame⟩ | ⟨w, ws, hsome, hsusp, hset⟩
    · have hne : Pc.pushUnlock ≠ (.popSuspended : Pc T) := nofun
      simpa [hsame, hnone] using h.suspended_update ht hne u
    · have hnodup := h.nodup
      rw [hsome, List.nodup_cons] at hnodup
      have hiff := h.suspended u
      rw [hsome, List.mem_cons] at hiff
      simp only [goto_pc, goto_e, set_e, AutoReset.suspended_set, hset, hsome, List.tail_cons]
      by_cases hu : u = t
      · subst hu
        simp only [Function.update_self, reduceCtorEq, false_iff]
        exact fun hmem => ht (hiff.mpr (.inr hmem))
      · rw [Function.update_of_ne hu]
        by_cases huw : u = w
        · subst huw
          simpa using hnodup.1
        · rw [Function.update_of_ne huw, hiff]
          simp [huw]
  · have hsub := (List.tail_sublist (AutoReset.suspended s.e)).nodup h.nodup
    simpa using hsub

/-- **The mutex and the event know the threads** after every action. -/
theorem step_inv {s s' : State Tid T} {a : Act Tid T} (hinv : Inv s) (h : step s a = some s') :
    Inv s' := by
  cases a with
  | call t c =>
    simp only [step] at h
    split at h
    · rename_i hpc
      obtain rfl := Option.some.inj h
      refine hinv.keep ?_ (t := t) rfl rfl (by rw [hpc]; exact nofun) (by cases c <;> exact nofun)
      exact hinv.lock.keep rfl (holds_update (by rw [hpc]; cases c <;> rfl))
    · cases h
  | next t =>
    have hn := next_nexted hinv.lock h
    have hl := hn.lockInv hinv
    cases hn with
    | set hpc => exact hinv.set hpc hl
    | wait hpc => exact hinv.wait hpc hl
    | lock hlk _ => exact hinv.keep hl (t := t) rfl rfl hlk.ne_suspended.1 hlk.ne_suspended.2
    | unlock hul => exact hinv.keep hl (t := t) rfl rfl hul.ne_suspended.1 hul.ne_suspended.2
    | insert hpc => exact hinv.keep hl (t := t) rfl rfl (by rw [hpc]; exact nofun) (by exact nofun)
    | testEmpty hpc _ =>
      exact hinv.keep hl (t := t) rfl rfl (by rw [hpc]; exact nofun) (by exact nofun)
    | testFull hpc _ =>
      exact hinv.keep hl (t := t) rfl rfl (by rw [hpc]; exact nofun) (by exact nofun)
    | take hpc _ => exact hinv.keep hl (t := t) rfl rfl (by rw [hpc]; exact nofun) (by exact nofun)
    | ret hpc => exact hinv.keep hl (t := t) rfl rfl (by rw [hpc]; exact nofun) (by exact nofun)
    | look hpc => exact hinv.keep hl (t := t) rfl rfl (by rw [hpc]; exact nofun) (by exact nofun)

theorem initial_inv (Tid T : Type) [DecidableEq Tid] (signalled : Bool) :
    Inv (initial Tid T signalled) := by
  refine ⟨⟨none, rfl, fun u => by simp [initial, Pc.holds]⟩, fun _ => rfl, ?_, List.nodup_nil⟩
  intro u
  simp [initial, AutoReset.initial, AutoReset.suspended]

end RtCharger.Os.Queue
