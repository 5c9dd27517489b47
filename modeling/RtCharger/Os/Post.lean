import RtCharger.Lib.StepSystem
import Mathlib.Data.List.Count
import Mathlib.Data.List.Range
import Mathlib.Logic.Function.Basic

namespace RtCharger.Os.Post

open StepSystem

/-!
# `Post` and `Deliver`

A deferred call travels through two queues (`deliver.hxx`, `deliver_base.cxx`, `post.cxx`).  The
closure that `Deliver::addTo` installs pushes the arguments on the `ctxQueue` of the `Deliver`
and then the `Deliver` on `Post::queue`; the polling thread pops a `Deliver` and invokes it,
which pops the arguments.  Other threads may run between any two of these steps.

The queues are first in, first out (`QueueFifo.lean`); one access to a queue is one step here.

* `pushContext`, `enqueue` — the two steps of an emitter;
* `pop`, `invoke` — the two steps of `Post::poll`;
* `Paired`, `step_paired` — a `Deliver` has a context for each way in which it is due.
-/

variable {Tid α : Type}

/-- An emission to a `Deliver`, with its arguments.  `id` tells the emissions of a run apart. -/
structure Context (α : Type) where
  id : Nat
  deliver : Nat
  args : α
deriving DecidableEq, Repr

/-- A `Post`, its `Deliver`s and the threads on their way. -/
structure State (Tid α : Type) where
  /-- `Post::queue`: the `Deliver`s to be invoked. -/
  queue : List Nat
  /-- `Deliver::ctxQueue`. -/
  ctxQueue : Nat → List (Context α)
  /-- The emitters between the two pushes, and the `Deliver` each is about to enqueue. -/
  midway : List (Tid × Nat)
  /-- What the polling thread has popped and not invoked yet. -/
  front : Option Nat
  /-- The emissions so far, in the order of their first step. -/
  pushed : List (Context α)
  /-- The calls of the `Deliver`s' functions, in order, and the thread of each. -/
  invoked : List (Tid × Context α)

/-- Nothing under way. -/
def initial (Tid α : Type) : State Tid α := ⟨[], fun _ => [], [], none, [], []⟩

/-- `ctxQueue.push(…)`. -/
def State.pushContext (s : State Tid α) (t : Tid) (d : Nat) (a : α) : State Tid α :=
  -- emissions are numbered in the order of this step
  let c : Context α := ⟨s.pushed.length, d, a⟩
  { s with ctxQueue := Function.update s.ctxQueue d (s.ctxQueue d ++ [c])
           midway := (t, d) :: s.midway
           pushed := s.pushed ++ [c] }

/-- `auto front = queue.pop()`; blocks while the queue is empty. -/
def State.pop (s : State Tid α) : Option (Nat × State Tid α) :=
  match s.front, s.queue with
  | none, d :: q => some (d, { s with queue := q, front := some d })
  | _, _         => none

/-- `front->invoke()` of the thread `self`: the context it finds, if the `ctxQueue` is not empty. -/
def State.invoke (s : State Tid α) (self : Tid) (d : Nat) : Option (Context α) × State Tid α :=
  match s.ctxQueue d with
  -- `if(ctxQueue.empty()) return`
  | []      => (none, { s with front := none })
  | c :: cs => (some c, { s with ctxQueue := Function.update s.ctxQueue d cs
                                 front := none
                                 invoked := s.invoked ++ [(self, c)] })

variable [DecidableEq Tid]

/-- `DeliverBase::enqueue`. -/
def State.enqueue (s : State Tid α) (t : Tid) (d : Nat) : State Tid α :=
  { s with midway := s.midway.erase (t, d), queue := s.queue ++ [d] }

/-- The `Deliver` that thread `t` is about to enqueue. -/
def State.midwayOf (s : State Tid α) (t : Tid) : Option (Tid × Nat) :=
  s.midway.find? fun m => decide (m.1 = t)

/-- The steps of the emitters and of the polling thread. -/
inductive Act (Tid α : Type) where
  | push (t : Tid) (d : Nat) (a : α)
  | enqueue (t : Tid)
  | pop
  | invoke
deriving DecidableEq, Repr

/-- One step; `self` is the polling thread. -/
def step (self : Tid) (s : State Tid α) : Act Tid α → Option (State Tid α)
  | .push t d a =>
    -- a thread makes the second push before it emits again
    match s.midwayOf t with
    | none   => some (s.pushContext t d a)
    | some _ => none
  | .enqueue t => (s.midwayOf t).map fun m => s.enqueue t m.2
  | .pop => s.pop.map Prod.snd
  | .invoke => s.front.map fun d => (s.invoke self d).2

/-! ### What a step does -/

theorem midwayOf_some {s : State Tid α} {t : Tid} {m : Tid × Nat} (h : s.midwayOf t = some m) :
    m ∈ s.midway ∧ m.1 = t :=
  ⟨List.mem_of_find?_eq_some h, by simpa using List.find?_some h⟩

omit [DecidableEq Tid] in
theorem pop_some {s s' : State Tid α} {d : Nat} (h : s.pop = some (d, s')) :
    s.front = none ∧ ∃ q, s.queue = d :: q ∧ s' = { s with queue := q, front := some d } := by
  unfold State.pop at h
  split at h
  · rename_i hf hq
    obtain ⟨rfl, rfl⟩ := Prod.mk.inj (Option.some.inj h)
    exact ⟨hf, _, hq, rfl⟩
  · cases h

/-- The step taken, with its effect. -/
inductive Stepped (self : Tid) (s : State Tid α) : Act Tid α → State Tid α → Prop
  | push {t : Tid} {d : Nat} {a : α} : Stepped self s (.push t d a) (s.pushContext t d a)
  | enqueue {t : Tid} {d : Nat} (h : (t, d) ∈ s.midway) :
      Stepped self s (.enqueue t) (s.enqueue t d)
  | pop {d : Nat} {s' : State Tid α} (h : s.pop = some (d, s')) : Stepped self s .pop s'
  | invoke {d : Nat} (h : s.front = some d) : Stepped self s .invoke (s.invoke self d).2

theorem step_stepped {self : Tid} {s s' : State Tid α} {a : Act Tid α}
    (h : step self s a = some s') : Stepped self s a s' := by
  cases a with
  | push t d a =>
    simp only [step] at h
    split at h
    · obtain rfl := Option.some.inj h
      exact .push
    · cases h
  | enqueue t =>
    obtain ⟨m, hm, rfl⟩ := Option.map_eq_some_iff.mp h
    obtain ⟨hmem, rfl⟩ := midwayOf_some hm
    exact .enqueue hmem
  | pop =>
    obtain ⟨⟨d, t⟩, hp, rfl⟩ := Option.map_eq_some_iff.mp h
    exact .pop hp
  | invoke =>
    obtain ⟨d, hd, rfl⟩ := Option.map_eq_some_iff.mp h
    exact .invoke hd

/-! ### As many contexts as ways to be due -/

/-- The ways in which the `Deliver` `d` is due: an emitter is about to enqueue it, it is
    queued, or it is popped. -/
def State.due (s : State Tid α) (d : Nat) : Nat :=
  (s.midway.map Prod.snd).count d + s.queue.count d + s.front.toList.count d

section

omit [DecidableEq Tid]

theorem due_push (s : State Tid α) (t : Tid) (d : Nat) (a : α) (d' : Nat) :
    (s.pushContext t d a).due d' = s.due d' + if d' = d then 1 else 0 := by
  by_cases hd : d' = d
  · subst hd
    simp [State.due, State.pushContext]
    omega
  · simp [State.due, State.pushContext, hd, Ne.symm hd]

theorem due_pop {s s' : State Tid α} {d : Nat} (h : s.pop = some (d, s')) (d' : Nat) :
    s'.due d' = s.due d' := by
  obtain ⟨hf, q, hq, rfl⟩ := pop_some h
  simp only [State.due, hf, hq, Option.toList_none, Option.toList_some, List.count_nil,
    List.count_cons]
  omega

theorem due_invoke (s : State Tid α) (self : Tid) {d : Nat} (h : s.front = some d) (d' : Nat) :
    s.due d' = (s.invoke self d).2.due d' + if d' = d then 1 else 0 := by
  have hone : s.front.toList.count d' = if d' = d then 1 else 0 := by
    rw [h, Option.toList_some, List.count_singleton]
    by_cases hd : d' = d
    · simp [hd]
    · simp [hd, Ne.symm hd]
  rw [State.due, hone]
  cases hc : s.ctxQueue d <;> simp [State.due, State.invoke, hc]

end

theorem due_enqueue {s : State Tid α} {t : Tid} {d : Nat} (h : (t, d) ∈ s.midway) (d' : Nat) :
    (s.enqueue t d).due d' = s.due d' := by
  have hperm := ((List.perm_cons_erase h).map Prod.snd).count_eq d'
  simp only [State.due, State.enqueue, List.map_cons, List.count_cons, List.count_append,
    List.count_nil] at hperm ⊢
  omega

omit [DecidableEq Tid] in
theorem due_pos_of_midway {s : State Tid α} {t : Tid} {d : Nat} (h : (t, d) ∈ s.midway) :
    0 < s.due d := by
  have hmem : d ∈ s.midway.map Prod.snd := List.mem_map.mpr ⟨(t, d), h, rfl⟩
  have hpos := List.count_pos_iff.mpr hmem
  simp only [State.due]
  omega

/-- Every `Deliver` has a context for each way in which it is due. -/
def Paired (s : State Tid α) : Prop := ∀ d, (s.ctxQueue d).length = s.due d

section

omit [DecidableEq Tid]

/-- A popped `Deliver` has a context. -/
theorem Paired.ctxQueue_ne_nil {s : State Tid α} (h : Paired s) {d : Nat} (hd : s.front = some d) :
    s.ctxQueue d ≠ [] := by
  have hlen := h d
  rw [State.due, hd, Option.toList_some, List.count_singleton_self] at hlen
  exact List.ne_nil_of_length_pos (by omega)

/-- `invoke` of a popped `Deliver` finds a context. -/
theorem Paired.invoke_eq {s : State Tid α} (h : Paired s) (self : Tid) {d : Nat}
    (hd : s.front = some d) :
    ∃ c cs, s.ctxQueue d = c :: cs ∧
      s.invoke self d = (some c, { s with ctxQueue := Function.update s.ctxQueue d cs
                                          front := none
                                          invoked := s.invoked ++ [(self, c)] }) := by
  obtain ⟨c, cs, hcs⟩ := List.exists_cons_of_ne_nil (h.ctxQueue_ne_nil hd)
  exact ⟨c, cs, hcs, by rw [State.invoke, hcs]⟩

theorem Paired.push {s : State Tid α} (h : Paired s) (t : Tid) (d : Nat) (a : α) :
    Paired (s.pushContext t d a) := by
  intro d'
  rw [due_push, ← h d']
  by_cases hd : d' = d
  · subst hd
    simp [State.pushContext]
  · simp [State.pushContext, hd]

theorem Paired.pop {s s' : State Tid α} (h : Paired s) {d : Nat} (hp : s.pop = some (d, s')) :
    Paired s' := by
  intro d'
  rw [due_pop hp, ← h d']
  obtain ⟨_, _, _, rfl⟩ := pop_some hp
  rfl

theorem Paired.invoke {s : State Tid α} (h : Paired s) (self : Tid) {d : Nat}
    (hd : s.front = some d) : Paired (s.invoke self d).2 := by
  intro d'
  have hlen := (h d').trans (due_invoke s self hd d')
  obtain ⟨c, cs, hcs, heq⟩ := h.invoke_eq self hd
  by_cases hne : d' = d
  · -- one context and one way to be due less
    subst hne
    rw [hcs, List.length_cons, if_pos rfl] at hlen
    rw [← Nat.succ.inj hlen, heq]
    simp
  · rw [if_neg hne, Nat.add_zero] at hlen
    rw [← hlen, heq]
    simp [hne]

end

theorem Paired.enqueue {s : State Tid α} (h : Paired s) {t : Tid} {d : Nat}
    (hm : (t, d) ∈ s.midway) : Paired (s.enqueue t d) := by
  intro d'
  rw [due_enqueue hm]
  exact h d'

theorem step_paired {self : Tid} {s s' : State Tid α} {a : Act Tid α} (hp : Paired s)
    (h : step self s a = some s') : Paired s' := by
  cases step_stepped h with
  | push => exact hp.push _ _ _
  | enqueue hm => exact hp.enqueue hm
  | pop hpop => exact hp.pop hpop
  | invoke hd => exact hp.invoke self hd

theorem initial_paired (Tid α : Type) : Paired (initial Tid α) := fun _ => rfl

end RtCharger.Os.Post
