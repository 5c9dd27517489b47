import RtCharger.Lib.StepSystem
import RtCharger.Os.AllocatorCore

namespace RtCharger.Os.EventAllocator

open Kernel SharedHeap StepSystem

/-!
# Destructors interleaved with `alloc`

`alloc` and `dispose` each run under the scheduler lock, but `CompactedEventSet::free` does not:
it resets the bit, tests `bits.none()` and calls `dispose` in three steps, and other threads
may run between them.

* `destroy_uninterrupted` — the steps of one destructor, taken without a break, are `destroy`;
* `set_with_event_unlisted` — `alloc` hands out a set between the test that found it unused and
  its removal, and the set ends up with a live `Event` but unlisted;
* `AllocSafe` — `alloc` does not take a set that some `free` has already found unused;
* `registry_complete` — under this condition every set with a live `Event` is listed.
-/

variable {Tid : Type} [DecidableEq Tid]

/-- What a thread inside `~Event` does next. -/
inductive Stage where
  /-- Test `bits.none()`. -/
  | test
  /-- Call `EventAllocator::dispose`, as the bitmap was empty. -/
  | dispose
  /-- Release the member `outer`. -/
  | release
deriving DecidableEq, Repr

/-- A destructor in progress: the thread, the `Event` and what comes next. -/
structure Dtor (Tid : Type) where
  thread : Tid
  event : Event
  stage : Stage
deriving DecidableEq

/-- The allocator and the destructors in progress. -/
structure Race (Tid : Type) where
  state : State Tid
  dtors : List (Dtor Tid)

/-- No `Event`, no set, no destructor. -/
def Race.initial (Tid : Type) : Race Tid := ⟨EventAllocator.initial Tid, []⟩

/-- The destructor that thread `t` is in. -/
def Race.dtorOf (r : Race Tid) (t : Tid) : Option (Dtor Tid) :=
  r.dtors.find? fun d => decide (d.thread = t)

/-- The destructor `d` goes on to `stage`. -/
def Race.advance (r : Race Tid) (d : Dtor Tid) (stage : Stage) : List (Dtor Tid) :=
  { d with stage := stage } :: r.dtors.erase d

/-- The steps of the threads. -/
inductive RaceAct (Tid : Type) where
  | alloc (t : Tid)
  | clear (t : Tid) (id : Nat)
  | test (t : Tid)
  | dispose (t : Tid)
  | release (t : Tid)
deriving DecidableEq, Repr

/-- One step of one thread. -/
def Race.step (r : Race Tid) : RaceAct Tid → Option (Race Tid)
  | .alloc t =>
    -- a thread inside a destructor does not allocate
    match r.dtorOf t, EventAllocator.alloc r.state with
    | none, .ok (_, s') => some { r with state := s' }
    | _, _              => none
  | .clear t id =>
    match r.dtorOf t, find r.state id with
    | none, some e => some ⟨resetBit r.state e, ⟨t, e, .test⟩ :: r.dtors⟩
    | _, _         => none
  | .test t =>
    match r.dtorOf t with
    | some ⟨_, e, .test⟩ =>
      -- the outcome of the test is all that later steps know of the bitmap
      let stage := if unused r.state e.outer then Stage.dispose else Stage.release
      some { r with dtors := r.advance ⟨t, e, .test⟩ stage }
    | _ => none
  | .dispose t =>
    match r.dtorOf t with
    | some ⟨_, e, .dispose⟩ =>
      some ⟨EventAllocator.dispose r.state e.outer, r.advance ⟨t, e, .dispose⟩ .release⟩
    | _ => none
  | .release t =>
    match r.dtorOf t with
    | some ⟨_, e, .release⟩ => some ⟨releaseOuter r.state e.outer, r.dtors.erase ⟨t, e, .release⟩⟩
    | _ => none

/-- The condition on `alloc`: the set it takes is not one that a `free` in progress has found
    unused and is about to remove. -/
def AllocSafe (r : Race Tid) : RaceAct Tid → Prop
  | .alloc _ => ∀ d ∈ r.dtors, d.stage = .dispose → available r.state ≠ some d.event.outer
  | _        => True

instance (r : Race Tid) (a : RaceAct Tid) : Decidable (AllocSafe r a) := by
  cases a <;> unfold AllocSafe <;> infer_instance

/-- Once no destruction is in progress, every set with a live `Event` is listed. -/
def RegistryComplete (r : Race Tid) : Prop :=
  r.dtors = [] → ∀ e ∈ r.state.events, e.outer ∈ r.state.eventSets

/-- **A lost set.**  Thread `1` finds the set of `Event` `0` unused; before it removes the set,
    thread `2` allocates `Event` `1` from it. -/
theorem set_with_event_unlisted :
    ∃ as r, Runs Race.step anyAction (Race.initial Nat) as r ∧ ¬ RegistryComplete r := by
  refine ⟨[.alloc 1, .clear 1 0, .test 1, .alloc 2, .dispose 1, .release 1], _,
    runs_get (by rfl), ?_⟩
  intro h
  have hlisted := h rfl ⟨1, 0, 0⟩ (by decide)
  revert hlisted
  decide

/-! ### What a step does -/

theorem dtorOf_some {r : Race Tid} {t : Tid} {d : Dtor Tid} (h : r.dtorOf t = some d) :
    d ∈ r.dtors ∧ d.thread = t :=
  ⟨List.mem_of_find?_eq_some h, by simpa using List.find?_some h⟩

/-- The step taken, with its effect. -/
inductive Raced (r : Race Tid) : RaceAct Tid → Race Tid → Prop
  | alloc {t : Tid} {e : Event} {s' : State Tid}
      (h : EventAllocator.alloc r.state = .ok (e, s')) : Raced r (.alloc t) { r with state := s' }
  | clear {t : Tid} {e : Event} (he : e ∈ r.state.events) :
      Raced r (.clear t e.id) ⟨resetBit r.state e, ⟨t, e, .test⟩ :: r.dtors⟩
  | test {d : Dtor Tid} (hd : d ∈ r.dtors) :
      Raced r (.test d.thread) { r with
        dtors := r.advance d (if unused r.state d.event.outer then .dispose else .release) }
  | dispose {d : Dtor Tid} (hd : d ∈ r.dtors) (hs : d.stage = .dispose) :
      Raced r (.dispose d.thread)
        ⟨EventAllocator.dispose r.state d.event.outer, r.advance d .release⟩
  | release {d : Dtor Tid} (hd : d ∈ r.dtors) :
      Raced r (.release d.thread) ⟨releaseOuter r.state d.event.outer, r.dtors.erase d⟩

theorem step_raced {r r' : Race Tid} {a : RaceAct Tid} (h : r.step a = some r') :
    Raced r a r' := by
  cases a with
  | alloc t =>
    simp only [Race.step] at h
    split at h
    · rename_i hal
      obtain rfl := Option.some.inj h
      exact .alloc hal
    · cases h
  | clear t id =>
    simp only [Race.step] at h
    split at h
    · rename_i hf
      obtain rfl := Option.some.inj h
      obtain ⟨hmem, rfl⟩ := find_some hf
      exact .clear hmem
    · cases h
  | test t =>
    simp only [Race.step] at h
    split at h
    · rename_i hd
      obtain rfl := Option.some.inj h
      obtain ⟨hmem, rfl⟩ := dtorOf_some hd
      exact .test hmem
    · cases h
  | dispose t =>
    simp only [Race.step] at h
    split at h
    · rename_i hd
      obtain rfl := Option.some.inj h
      obtain ⟨hmem, rfl⟩ := dtorOf_some hd
      exact .dispose hmem rfl
    · cases h
  | release t =>
    simp only [Race.step] at h
    split at h
    · rename_i hd
      obtain rfl := Option.some.inj h
      obtain ⟨hmem, rfl⟩ := dtorOf_some hd
      exact .release hmem
    · cases h

/-- A thread is in the destructor it entered last. -/
@[simp] theorem dtorOf_cons (s : State Tid) (t : Tid) (e : Event) (stage : Stage)
    (ds : List (Dtor Tid)) :
    (⟨s, ⟨t, e, stage⟩ :: ds⟩ : Race Tid).dtorOf t = some ⟨t, e, stage⟩ := by
  simp [Race.dtorOf]

/-- The steps of one destructor, taken without a break, are `destroy`. -/
theorem destroy_uninterrupted {r : Race Tid} {t : Tid} {e : Event} (ht : r.dtorOf t = none)
    (hf : find r.state e.id = some e) :
    run Race.step r (if unused (resetBit r.state e) e.outer
        then [.clear t e.id, .test t, .dispose t, .release t]
        else [.clear t e.id, .test t, .release t]) =
      some { r with state := destroy r.state e } := by
  rw [destroy, free_eq]
  by_cases hu : unused (resetBit r.state e) e.outer = true
  · simp [run, Race.step, ht, hf, hu, Race.advance]
  · simp [run, Race.step, ht, hf, hu, Race.advance]

/-! ### The invariant -/

/-- The sets that the destructors in progress own. -/
def heldBy (ds : List (Dtor Tid)) : List Nat := ds.map fun d => d.event.outer

theorem heldBy_perm {d : Dtor Tid} {ds : List (Dtor Tid)} (hd : d ∈ ds) :
    (heldBy ds).Perm (d.event.outer :: heldBy (ds.erase d)) :=
  (List.perm_cons_erase hd).map _

omit [DecidableEq Tid] in
/-- The order of the owners is irrelevant. -/
theorem Core.perm {s : State Tid} {held held' : List Nat} (h : Core s held)
    (hp : held.Perm held') : Core s held' :=
  ⟨h.counted.perm (hp.append_left _), h.ids_nodup, h.ids_lt, h.slots_nodup, h.bits⟩

/-- The sets with a live `Event` are listed, and a set about to be removed has none. -/
structure RaceInv (r : Race Tid) : Prop where
  core : Core r.state (heldBy r.dtors)
  listed : ∀ w, HasEvent r.state w → w ∈ r.state.eventSets
  unused : ∀ d ∈ r.dtors, d.stage = .dispose → ¬ HasEvent r.state d.event.outer

omit [DecidableEq Tid] in
/-- The set of a destructor in progress is alive. -/
theorem RaceInv.get_outer {r : Race Tid} (h : RaceInv r) {d : Dtor Tid} (hd : d ∈ r.dtors) :
    ∃ set, r.state.heap.get d.event.outer = some set :=
  h.core.counted.exists_get (List.mem_append_right _ (List.mem_map_of_mem hd))

omit [DecidableEq Tid] in
theorem Allocated.hasEvent {s s' : State Tid} {e : Event} (h : Allocated s e s') (w : Nat) :
    HasEvent s' w ↔ e.outer = w ∨ HasEvent s w := by
  rw [HasEvent, h.events]
  simp [HasEvent]

omit [DecidableEq Tid] in
/-- `alloc` lists the set it allocates from and drops none. -/
theorem Allocated.listed {s s' : State Tid} {e : Event} (h : Allocated s e s') :
    e.outer ∈ s'.eventSets ∧ ∀ w ∈ s.eventSets, w ∈ s'.eventSets := by
  rcases h.origin with ⟨hav, hsets, _⟩ | ⟨_, _, hsets, _⟩
  · rw [hsets]
    exact ⟨(available_some hav).1, fun _ hw => hw⟩
  · rw [hsets]
    exact ⟨by simp, fun w hw => List.mem_append_left _ hw⟩

omit [DecidableEq Tid] in
theorem alloc_raceInv {r : Race Tid} {t : Tid} {e : Event} {s' : State Tid} (hinv : RaceInv r)
    (hok : AllocSafe r (.alloc t)) (h : EventAllocator.alloc r.state = .ok (e, s')) :
    RaceInv { r with state := s' } := by
  obtain ⟨hall, hcore⟩ := alloc_allocated hinv.core h
  obtain ⟨hnew, hkeep⟩ := hall.listed
  refine ⟨hcore, ?_, ?_⟩
  · intro w hw
    rcases (hall.hasEvent w).mp hw with rfl | hw
    · exact hnew
    · exact hkeep w (hinv.listed w hw)
  · intro d hd hs hw
    rcases (hall.hasEvent _).mp hw with hout | hw
    · -- neither the available set nor a new one is about to be removed
      rcases hall.origin with ⟨hav, _⟩ | ⟨_, hnext, _⟩
      · exact hok d hd hs (hav.trans (congrArg some hout))
      · have hlt := hinv.core.counted.lt_next
          (List.mem_append_right _ (List.mem_map_of_mem hd : d.event.outer ∈ heldBy r.dtors))
        omega
    · exact hinv.unused d hd hs hw

/-- **The invariant of the race.**  One step that meets the condition keeps it. -/
theorem step_raceInv {r r' : Race Tid} {a : RaceAct Tid} (hinv : RaceInv r)
    (hok : AllocSafe r a) (h : r.step a = some r') : RaceInv r' := by
  cases step_raced h with
  | alloc hal => exact alloc_raceInv hinv hok hal
  | @clear t e he =>
    have hsub : ∀ w, HasEvent (resetBit r.state e) w → HasEvent r.state w := by
      rintro w ⟨e', he', hw⟩
      exact ⟨e', List.mem_of_mem_erase he', hw⟩
    refine ⟨resetBit_core hinv.core he, fun w hw => hinv.listed w (hsub w hw), ?_⟩
    intro d hd hs hw
    rcases List.mem_cons.mp hd with rfl | hd
    · -- the new destructor has not tested yet
      cases hs
    · exact hinv.unused d hd hs (hsub _ hw)
  | @test d hd =>
    refine ⟨hinv.core.perm (heldBy_perm hd), hinv.listed, ?_⟩
    intro d' hd' hs
    rcases List.mem_cons.mp hd' with rfl | hd'
    · -- the stage says what the test has found
      obtain ⟨set, hg⟩ := hinv.get_outer hd
      refine (unused_iff hinv.core hg).mp ?_
      by_contra hne
      simp [hne] at hs
    · exact hinv.unused d' (List.mem_of_mem_erase hd') hs
  | @dispose d hd hs =>
    refine ⟨dispose_core (hinv.core.perm (heldBy_perm hd)) _, ?_, ?_⟩
    · -- the set that is removed has no `Event`, so those that have one stay listed
      intro w hw
      have hw' : HasEvent r.state w := hw
      obtain ⟨e, he, rfl⟩ := hw'
      obtain ⟨set, hg⟩ := hinv.core.get_outer he
      have hne : e.outer ≠ d.event.outer := fun heq => hinv.unused d hd hs ⟨e, he, heq⟩
      show e.outer ∈ List.filter _ _
      rw [List.mem_filter]
      exact ⟨hinv.listed _ ⟨e, he, rfl⟩, by simp [hg, hne]⟩
    · intro d' hd' hs'
      rcases List.mem_cons.mp hd' with rfl | hd'
      · cases hs'
      · exact hinv.unused d' (List.mem_of_mem_erase hd') hs'
  | @release d hd =>
    obtain ⟨_, hev, hsets, _⟩ := releaseOuter_frame r.state d.event.outer
    refine ⟨releaseOuter_core (hinv.core.perm (heldBy_perm hd)), ?_, ?_⟩
    · intro w hw
      show w ∈ (releaseOuter r.state d.event.outer).eventSets
      rw [hsets]
      rw [HasEvent, hev] at hw
      exact hinv.listed w hw
    · intro d' hd' hs' hw
      rw [HasEvent, hev] at hw
      exact hinv.unused d' (List.mem_of_mem_erase hd') hs' hw

/-- **The registry is complete** in every run in which no `alloc` takes a set that a `free` in
    progress has already found unused. -/
theorem registry_complete {as : List (RaceAct Tid)} {r : Race Tid}
    (h : Runs Race.step AllocSafe (Race.initial Tid) as r) : RegistryComplete r := by
  have hinv : RaceInv r := by
    refine h.invariant RaceInv (fun _ _ _ hi hok hs => step_raceInv hi hok hs) ?_
    exact ⟨initial_core Tid, by simp [HasEvent, Race.initial, initial], by simp [Race.initial]⟩
  intro _ e he
  exact hinv.listed _ ⟨e, he, rfl⟩

/-- Two threads take turns; the set is reused before the test and kept. -/
theorem registry_complete_reused : ∃ r, Runs Race.step AllocSafe (Race.initial Nat)
      [.alloc 1, .clear 1 0, .alloc 2, .test 1, .release 1] r ∧ RegistryComplete r :=
  ⟨_, runs_checked_get (by decide), registry_complete (runs_checked_get (by decide))⟩

end RtCharger.Os.EventAllocator
