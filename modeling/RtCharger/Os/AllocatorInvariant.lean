import RtCharger.Os.AllocatorCore
import Mathlib.Data.Fintype.Card

namespace RtCharger.Os.EventAllocator

open Kernel SharedHeap StepSystem

/-!
# The allocation invariant

The program's events under whole operations, one at a time.

* `Registered` — the registry lists the sets that have a live `Event`;
* `Stepped` — everything one operation can be;
* `step_inv`, `runs_inv` — `Core` and `Registered` along every run;
* `event_allocation_invariant` — what that says of bitmaps, registry and new sets.
-/

variable {Tid : Type} {s s' : State Tid} {held : List Nat} {e : Event}

/-! ### The registry -/

/-- The registry lists, once each, the sets that have a live `Event`. -/
structure Registered (s : State Tid) : Prop where
  nodup : s.eventSets.Nodup
  mem_iff : ∀ w, w ∈ s.eventSets ↔ HasEvent s w

theorem Registered.congr (h : Registered s) (hev : s'.events = s.events)
    (hreg : s'.eventSets = s.eventSets) : Registered s' := by
  refine ⟨by rw [hreg]; exact h.nodup, fun w => ?_⟩
  rw [hreg, HasEvent, hev]
  exact h.mem_iff w

theorem initial_registered (Tid : Type) : Registered (initial Tid) :=
  ⟨List.nodup_nil, fun w => by simp [initial, HasEvent]⟩

/-- `alloc` keeps the registry exact: it takes a listed set or lists the new one. -/
theorem Allocated.registered (h : Core s held) (hr : Registered s) (ha : Allocated s e s') :
    Registered s' := by
  have hhas : ∀ w, HasEvent s' w ↔ e.outer = w ∨ HasEvent s w := by
    intro w
    simp [HasEvent, ha.events]
  rcases ha.origin with ⟨hav, hreg, _⟩ | ⟨_, hnew, hreg, _⟩
  · -- a listed set, which has an `Event` already
    have hlisted := (available_some hav).1
    refine ⟨by rw [hreg]; exact hr.nodup, fun w => ?_⟩
    rw [hreg, hhas, hr.mem_iff]
    constructor
    · exact Or.inr
    · rintro (rfl | hw)
      · exact (hr.mem_iff _).mp hlisted
      · exact hw
  · -- a new set, whose number no entry of the registry can have
    have hunlisted : e.outer ∉ s.eventSets := by
      rw [hr.mem_iff, hnew]; exact h.not_hasEvent_next
    refine ⟨?_, fun w => ?_⟩
    · rw [hreg, List.nodup_append]
      refine ⟨hr.nodup, List.nodup_singleton _, ?_⟩
      rintro a ha' b hb rfl
      exact hunlisted (List.mem_singleton.mp hb ▸ ha')
    · rw [hreg, hhas, List.mem_append, List.mem_singleton, hr.mem_iff, or_comm, eq_comm]

/-- `free` keeps the registry exact: it removes the set together with its last `Event`. -/
theorem free_registered (h : Core s held) (hr : Registered s) (he : e ∈ s.events) :
    Registered (free s e) := by
  have hcore := resetBit_core h he
  obtain ⟨set, hg⟩ := hcore.counted.exists_get (a := e.outer) (by simp)
  have hkeep : ∀ w, w ≠ e.outer → (HasEvent (resetBit s e) w ↔ HasEvent s w) := by
    intro w hne
    constructor
    · rintro ⟨e', he', hw⟩
      exact ⟨e', List.mem_of_mem_erase he', hw⟩
    · rintro ⟨e', he', hw⟩
      refine ⟨e', h.events_nodup.mem_erase_iff.mpr ⟨?_, he'⟩, hw⟩
      rintro rfl
      exact hne hw.symm
  rw [free_eq]
  split
  · rename_i hun
    -- the last `Event` of the set: the registry loses the set, and it had no other dead entry
    have hno := (unused_iff hcore hg).mp hun
    refine ⟨hr.nodup.filter _, fun w => ?_⟩
    show w ∈ (resetBit s e).eventSets.filter _ ↔ HasEvent (resetBit s e) w
    rw [List.mem_filter, Bool.and_eq_true, decide_eq_true_eq, hcore.counted.alive_iff]
    show (w ∈ s.eventSets ∧ _) ↔ _
    rw [hr.mem_iff]
    by_cases hne : w = e.outer
    · subst hne
      simp [hno]
    · rw [hkeep w hne]
      constructor
      · exact fun hw => hw.1
      · intro hw
        exact ⟨hw, List.mem_append_left _ (mem_outers.mpr ((hkeep w hne).mpr hw)), hne⟩
  · rename_i hun
    -- another `Event` of the set lives on, and the registry is not touched
    have hhas : HasEvent (resetBit s e) e.outer := by
      by_contra hno
      exact hun ((unused_iff hcore hg).mpr hno)
    refine ⟨hr.nodup, fun w => ?_⟩
    show w ∈ s.eventSets ↔ _
    rw [hr.mem_iff]
    by_cases hne : w = e.outer
    · subst hne
      exact ⟨fun _ => hhas, fun _ => ⟨e, he, rfl⟩⟩
    · exact (hkeep w hne).symm

/-! ### `set`, `wait` and time-outs -/

/-- Only the kernel event of the set `w`, who waits and which waits have finished differ. -/
structure SameEvents (w : Nat) (s s' : State Tid) : Prop where
  heap : ∃ f : CompactedEventSet Tid → CompactedEventSet Tid,
    (∀ set b, (f set).uses b = set.uses b) ∧ s'.heap = s.heap.modify w f
  events : s'.events = s.events
  eventSets : s'.eventSets = s.eventSets
  nextEvent : s'.nextEvent = s.nextEvent

theorem SameEvents.core {w : Nat} (hs : SameEvents w s s') (h : Core s held) : Core s' held := by
  obtain ⟨f, hf, hheap⟩ := hs.heap
  exact (h.modify w f hf).congr hheap hs.events hs.nextEvent

/-- The invariant between two operations. -/
structure Inv (s : State Tid) : Prop where
  core : Core s []
  registered : Registered s

theorem initial_inv (Tid : Type) : Inv (initial Tid) :=
  ⟨initial_core Tid, initial_registered Tid⟩

theorem SameEvents.inv {w : Nat} (hs : SameEvents w s s') (h : Inv s) : Inv s' :=
  ⟨hs.core h.core, h.registered.congr hs.events hs.eventSets⟩

section

variable [DecidableEq Tid]

theorem setEvent_same (h : setEvent s e = some s') : SameEvents e.outer s s' := by
  unfold setEvent at h
  split at h
  · cases h
  · rename_i set hg
    obtain rfl := Option.some.inj h
    obtain ⟨h1, h2, h3, h4⟩ := resume_frame
      { s with heap := s.heap.modify e.outer fun _ => (set.set e.bit).2 } (set.set e.bit).1 true
    refine ⟨⟨fun set' => { set' with event := (set.set e.bit).2.event }, fun _ _ => rfl, ?_⟩,
      h2, h3, h4⟩
    have hheap : s.heap.modify e.outer (fun _ => (set.set e.bit).2)
        = s.heap.modify e.outer fun set' => { set' with event := (set.set e.bit).2.event } :=
      modify_congr hg rfl
    exact h1.trans hheap

theorem waitEvent_same {t : Tid} {d : Int} (h : waitEvent s t e d = some s') :
    SameEvents e.outer s s' := by
  unfold waitEvent at h
  split at h
  · cases h
  · rename_i set hg
    have hheap : s.heap.modify e.outer (fun _ => (set.wait t e.bit d).2)
        = s.heap.modify e.outer fun set' => { set' with event := (set.wait t e.bit d).2.event } :=
      modify_congr hg rfl
    have hsame : ∀ {s'' : State Tid},
        s''.heap = s.heap.modify e.outer (fun _ => (set.wait t e.bit d).2) →
        s''.events = s.events → s''.eventSets = s.eventSets → s''.nextEvent = s.nextEvent →
        SameEvents e.outer s s'' :=
      fun h1 h2 h3 h4 =>
        ⟨⟨fun set' => { set' with event := (set.wait t e.bit d).2.event }, fun _ _ => rfl,
          h1.trans hheap⟩, h2, h3, h4⟩
    simp only at h
    split at h
    · obtain rfl := Option.some.inj h
      exact hsame rfl rfl rfl rfl
    · obtain rfl := Option.some.inj h
      exact hsame rfl rfl rfl rfl
    · obtain rfl := Option.some.inj h
      exact hsame rfl rfl rfl rfl
    · cases h

theorem timeoutEvent_same {t : Tid} (h : timeoutEvent s t e = some s') :
    SameEvents e.outer s s' := by
  unfold timeoutEvent at h
  split at h
  · cases h
  · split at h
    · cases h
    · rename_i ev' _
      obtain rfl := Option.some.inj h
      exact ⟨⟨fun set' => { set' with event := ev' }, fun _ _ => rfl, by simp⟩, by simp, by simp,
        by simp⟩

/-! ### Whole operations -/

/-- Everything one operation of the program can be. -/
inductive Stepped (s : State Tid) : Act Tid → State Tid → Prop
  | alloc {e : Event} {s' : State Tid} (h : EventAllocator.alloc s = .ok (e, s')) :
      Stepped s .alloc s'
  | destroy {e : Event} (he : e ∈ s.events) : Stepped s (.destroy e.id) (destroy s e)
  | set {e : Event} {s' : State Tid} (he : e ∈ s.events) (h : setEvent s e = some s') :
      Stepped s (.set e.id) s'
  | wait {t : Tid} {e : Event} {d : Int} {s' : State Tid} (he : e ∈ s.events)
      (ht : s.waiting t = none) (h : waitEvent s t e d = some s') : Stepped s (.wait t e.id d) s'
  | timeout {t : Tid} {e : Event} {s' : State Tid} (ht : s.waiting t = some e)
      (h : timeoutEvent s t e = some s') : Stepped s (.timeout t e.id) s'

theorem step_stepped {a : Act Tid} (h : step s a = some s') : Stepped s a s' := by
  cases a with
  | alloc =>
    simp only [step] at h
    split at h
    · rename_i ha
      obtain rfl := Option.some.inj h
      exact .alloc ha
    · cases h
  | destroy id =>
    obtain ⟨e, hf, rfl⟩ := Option.map_eq_some_iff.mp h
    obtain ⟨he, rfl⟩ := find_some hf
    exact .destroy he
  | set id =>
    obtain ⟨e, hf, hs⟩ := Option.bind_eq_some_iff.mp h
    obtain ⟨he, rfl⟩ := find_some hf
    exact .set he hs
  | wait t id d =>
    simp only [step] at h
    split at h
    · rename_i ht
      obtain ⟨e, hf, hs⟩ := Option.bind_eq_some_iff.mp h
      obtain ⟨he, rfl⟩ := find_some hf
      exact .wait he ht hs
    · cases h
  | timeout t id =>
    simp only [step] at h
    split at h
    · rename_i ht
      rw [Option.ite_none_right_eq_some] at h
      obtain ⟨rfl, hs⟩ := h
      exact .timeout ht hs
    · cases h

/-- **One operation keeps the invariant.** -/
theorem step_inv {a : Act Tid} (h : Inv s) (hstep : step s a = some s') : Inv s' := by
  cases step_stepped hstep with
  | alloc ha =>
    obtain ⟨hall, hcore⟩ := alloc_allocated h.core ha
    exact ⟨hcore, hall.registered h.core h.registered⟩
  | destroy he =>
    obtain ⟨_, h2, h3, _⟩ := releaseOuter_frame (free s _) _
    exact ⟨destroy_core h.core he, (free_registered h.core h.registered he).congr h2 h3⟩
  | set _ h' => exact (setEvent_same h').inv h
  | wait _ _ h' => exact (waitEvent_same h').inv h
  | timeout _ h' => exact (timeoutEvent_same h').inv h

/-- The invariant in every state a run reaches. -/
theorem runs_inv {as : List (Act Tid)} {ok : State Tid → Act Tid → Prop}
    (h : Runs step ok (initial Tid) as s) : Inv s :=
  h.invariant Inv (fun _ _ _ hinv _ hstep => step_inv hinv hstep) (initial_inv Tid)

end

/-! ### The allocation invariant -/

/-- The live `Event`s of a set. -/
def liveIn (s : State Tid) (w : Nat) : List Event := s.events.filter fun e => decide (e.outer = w)

/-- Any two live `Event`s differ in their set or their bit. -/
def SlotsDistinct (s : State Tid) : Prop := (s.events.map fun e => (e.outer, e.bit)).Nodup

/-- Every bitmap has exactly the bits of the live `Event`s of its set. -/
def BitmapsExact (s : State Tid) : Prop :=
  ∀ w set, s.heap.get w = some set → ∀ b, set.uses b = true ↔ Taken s w b

/-- The registry has every set with a live `Event` exactly once, and no other or expired
    entry. -/
def RegistryExact (s : State Tid) : Prop :=
  (∀ w, HasEvent s w → s.eventSets.count w = 1) ∧
    ∀ w ∈ s.eventSets, HasEvent s w ∧ (s.heap.get w).isSome = true

/-- `alloc` makes a new set only if every set with a live `Event` has thirty-two of them. -/
def NewSetOnlyWhenFull (s : State Tid) : Prop :=
  ∀ e s', alloc s = .ok (e, s') → s.heap.next < s'.heap.next →
    ∀ w, HasEvent s w → (liveIn s w).length = 32

/-- A set all of whose bits are taken has thirty-two live `Event`s. -/
theorem liveIn_length_of_full (h : Core s held) {w : Nat} (hfull : ∀ b, Taken s w b) :
    (liveIn s w).length = 32 := by
  have hsub : (liveIn s w).Sublist s.events := List.filter_sublist
  have hnodup : ((liveIn s w).map Event.bit).Nodup := by
    refine (h.events_nodup.sublist hsub).map_on ?_
    intro e he e' he' hb
    simp only [liveIn, List.mem_filter, decide_eq_true_eq] at he he'
    exact h.eq_of_slot he.1 he'.1 (he.2.trans he'.2.symm) hb
  have hall : ((liveIn s w).map Event.bit).toFinset = Finset.univ := by
    ext b
    obtain ⟨e, he, hw, hb⟩ := hfull b
    simp only [List.mem_toFinset, Finset.mem_univ, iff_true]
    exact List.mem_map.mpr ⟨e, by simp [liveIn, he, hw], hb⟩
  have hcard := List.toFinset_card_of_nodup hnodup
  rw [hall, Finset.card_univ, Fintype.card_fin, List.length_map] at hcard
  exact hcard.symm

/-- **Event allocation invariant.**  In every state that allocations, destructions and uses of
    `Event`s reach: no two live `Event`s share a slot, the bitmaps are exact, the registry is
    exact, and a new set is made only when all others are full. -/
theorem event_allocation_invariant [DecidableEq Tid] {as : List (Act Tid)}
    (h : Runs step anyAction (initial Tid) as s) :
    SlotsDistinct s ∧ BitmapsExact s ∧ RegistryExact s ∧ NewSetOnlyWhenFull s := by
  obtain ⟨hcore, hreg⟩ := runs_inv h
  refine ⟨hcore.slots_nodup, hcore.bits, ⟨?_, ?_⟩, ?_⟩
  · intro w hw
    exact List.count_eq_one_of_mem hreg.nodup ((hreg.mem_iff w).mpr hw)
  · intro w hw
    have hhas := (hreg.mem_iff w).mp hw
    obtain ⟨e, he, rfl⟩ := hhas
    obtain ⟨set, hg⟩ := hcore.get_outer he
    exact ⟨⟨e, he, rfl⟩, by rw [hg]; rfl⟩
  · intro e s' ha hnew w hw
    obtain ⟨hall, _⟩ := alloc_allocated hcore ha
    rcases hall.origin with ⟨_, _, hnext, _⟩ | ⟨hav, _⟩
    · -- an available set is no new set
      omega
    · -- nothing was available: every listed set is full
      obtain ⟨e', he', rfl⟩ := hw
      obtain ⟨set, hg⟩ := hcore.get_outer he'
      have hfull := available_none hav ((hreg.mem_iff _).mpr ⟨e', he', rfl⟩) hg
      rw [CompactedEventSet.full_iff] at hfull
      exact liveIn_length_of_full hcore fun b => (hcore.bits _ set hg b).mp (hfull b)

/-- The invariant after a run that allocates, frees and reuses a bit. -/
theorem event_allocation_invariant_reuse :
    ∃ s, Runs step anyAction (initial Nat) [.alloc, .alloc, .destroy 0, .alloc] s ∧
      SlotsDistinct s ∧ BitmapsExact s ∧ RegistryExact s ∧ NewSetOnlyWhenFull s :=
  ⟨_, runs_get (by rfl), event_allocation_invariant (runs_get (by rfl))⟩

end RtCharger.Os.EventAllocator
