import RtCharger.Os.EventAllocator
import Mathlib.Data.List.Perm.Basic

namespace RtCharger.Os.EventAllocator

open Kernel SharedHeap

/-!
# Bitmaps, owners and live events

What ties the bitmaps and the owner counts of the sets to the live `Event`s.

* `Core s held` — bitmaps, owner counts and identities agree with the live `Event`s; `held`
  are the sets owned by something else than a live `Event` (a local of `alloc`, an `Event`
  being destroyed);
* `alloc_spec` — `alloc` never throws, and all it does (`Allocated`);
* `resetBit_core`, `releaseOuter_core` — the pieces of the destructor.

The registry is left to `AllocatorInvariant.lean` and `AllocatorRace.lean`, which differ in how
the pieces of the destructor may interleave.
-/

variable {Tid : Type} {s s' : State Tid} {held : List Nat} {e : Event}

/-! ### The core invariant -/

/-- Bitmaps, owner counts and identities agree with the live `Event`s. -/
structure Core (s : State Tid) (held : List Nat) : Prop where
  counted : s.heap.Counted (outers s ++ held)
  ids_nodup : (s.events.map Event.id).Nodup
  ids_lt : ∀ e ∈ s.events, e.id < s.nextEvent
  slots_nodup : (s.events.map fun e => (e.outer, e.bit)).Nodup
  bits : ∀ w set, s.heap.get w = some set → ∀ b, set.uses b = true ↔ Taken s w b

theorem initial_core (Tid : Type) : Core (initial Tid) [] :=
  ⟨counted_empty, List.nodup_nil, by simp [initial], List.nodup_nil, by simp [initial]⟩

/-- `Core` reads only the heap and the live `Event`s. -/
theorem Core.congr (h : Core s held) (hheap : s'.heap = s.heap) (hev : s'.events = s.events)
    (hnext : s'.nextEvent = s.nextEvent) : Core s' held := by
  obtain ⟨h1, h2, h3, h4, h5⟩ := h
  refine ⟨?_, ?_, ?_, ?_, ?_⟩
  · rw [hheap, outers, hev]; exact h1
  · rw [hev]; exact h2
  · rw [hev, hnext]; exact h3
  · rw [hev]; exact h4
  · rw [hheap]
    intro w set hw b
    rw [Taken, hev]
    exact h5 w set hw b

/-- A live `Event` is known by its identity. -/
theorem Core.eq_of_id (h : Core s held) {e e' : Event} (he : e ∈ s.events) (he' : e' ∈ s.events)
    (hid : e.id = e'.id) : e = e' :=
  List.inj_on_of_nodup_map h.ids_nodup he he' hid

/-- A live `Event` is known by its set and bit. -/
theorem Core.eq_of_slot (h : Core s held) {e e' : Event} (he : e ∈ s.events)
    (he' : e' ∈ s.events) (hw : e.outer = e'.outer) (hb : e.bit = e'.bit) : e = e' :=
  List.inj_on_of_nodup_map h.slots_nodup he he' (by rw [hw, hb])

theorem Core.events_nodup (h : Core s held) : s.events.Nodup := h.ids_nodup.of_map _

/-- The set of a live `Event` is alive. -/
theorem Core.get_outer (h : Core s held) (he : e ∈ s.events) :
    ∃ set, s.heap.get e.outer = some set :=
  h.counted.exists_get (List.mem_append_left _ (mem_outers.mpr ⟨e, he, rfl⟩))

/-- A set nobody owns has no live `Event`. -/
theorem Core.not_hasEvent_next (h : Core s held) : ¬ HasEvent s s.heap.next := fun hw =>
  h.counted.next_not_mem (List.mem_append_left _ (mem_outers.mpr hw))

/-- Writing the kernel event of a set leaves the invariant alone. -/
theorem Core.modify (h : Core s held) (w : Nat)
    (f : CompactedEventSet Tid → CompactedEventSet Tid) (hf : ∀ set b, (f set).uses b = set.uses b) :
    Core { s with heap := s.heap.modify w f } held := by
  refine ⟨h.counted.modify w f, h.ids_nodup, h.ids_lt, h.slots_nodup, ?_⟩
  intro w' set hw' b
  by_cases hne : w' = w
  · subst hne
    obtain ⟨set₀, h₀, rfl⟩ := Option.map_eq_some_iff.mp ((get_modify_self s.heap w' f).symm.trans hw')
    rw [hf]
    exact h.bits w' set₀ h₀ b
  · exact h.bits w' set ((get_modify_of_ne s.heap f hne).symm.trans hw') b

/-! ### `alloc` -/

theorem available_some {w : Nat} (h : available s = some w) :
    w ∈ s.eventSets ∧ ∃ set, s.heap.get w = some set ∧ set.full = false := by
  refine ⟨List.mem_of_find?_eq_some h, ?_⟩
  have hp := List.find?_some h
  cases hg : s.heap.get w with
  | none => simp [hg] at hp
  | some set => exact ⟨set, rfl, by simpa [hg] using hp⟩

/-- When no set is available, every listed set that is alive is full. -/
theorem available_none (h : available s = none) {w : Nat} (hw : w ∈ s.eventSets)
    {set : CompactedEventSet Tid} (hg : s.heap.get w = some set) : set.full = true := by
  have hp := List.find?_eq_none.mp h w hw
  simpa [hg] using hp

/-- Where `pick` found its set. -/
inductive Picked (s : State Tid) : Nat → State Tid → Prop
  | listed {w : Nat} (h : available s = some w) :
      Picked s w { s with heap := s.heap.acquire w }
  | fresh (h : available s = none) :
      Picked s s.heap.next { s with heap := s.heap.make (CompactedEventSet.new Tid)
                                    eventSets := s.eventSets ++ [s.heap.next] }

theorem pick_picked (s : State Tid) : Picked s (pick s).1 (pick s).2 := by
  unfold pick
  split
  · exact .listed ‹_›
  · exact .fresh ‹_›

/-- The set that `pick` returns is alive, not full, and owned by the local. -/
theorem Picked.core {w : Nat} (h : Core s held) (hp : Picked s w s') :
    Core s' (w :: held) ∧ ∃ set, s'.heap.get w = some set ∧ set.full = false := by
  cases hp with
  | listed hav =>
    obtain ⟨_, set, hg, hfull⟩ := available_some hav
    refine ⟨⟨?_, h.ids_nodup, h.ids_lt, h.slots_nodup, ?_⟩, set, by simpa using hg, hfull⟩
    · exact (h.counted.acquire (h.counted.mem_of_get hg)).perm List.perm_middle.symm
    · intro w' set' hw'
      exact h.bits w' set' (by simpa using hw')
  | fresh hav =>
    refine ⟨⟨?_, h.ids_nodup, h.ids_lt, h.slots_nodup, ?_⟩, _, get_make_self _ _, by simp⟩
    · exact (h.counted.make _).perm List.perm_middle.symm
    · intro w' set' hw' b
      by_cases hne : w' = s.heap.next
      · -- the new set: no bit in use, no `Event`
        subst hne
        obtain rfl := Option.some.inj ((get_make_self s.heap _).symm.trans hw')
        simp only [CompactedEventSet.uses_new, Bool.false_eq_true, false_iff]
        rintro ⟨e, he, hw, _⟩
        exact h.not_hasEvent_next ⟨e, he, hw⟩
      · exact h.bits w' set' ((get_make_of_ne s.heap _ hne).symm.trans hw') b

/-- Everything `alloc` does: a new live `Event` on a bit nobody had, in the available set or
    else in a new, listed one. -/
structure Allocated (s : State Tid) (e : Event) (s' : State Tid) : Prop where
  id : e.id = s.nextEvent
  events : s'.events = e :: s.events
  nextEvent : s'.nextEvent = s.nextEvent + 1
  waiting : s'.waiting = s.waiting
  results : s'.results = s.results
  untaken : ¬ Taken s e.outer e.bit
  frame : ∀ w, w ≠ e.outer → s'.heap.get w = s.heap.get w
  origin :
    (available s = some e.outer ∧ s'.eventSets = s.eventSets ∧ s'.heap.next = s.heap.next ∧
      ∃ set set', s.heap.get e.outer = some set ∧ s'.heap.get e.outer = some set' ∧
        set'.event = set.event) ∨
    (available s = none ∧ e.outer = s.heap.next ∧ s'.eventSets = s.eventSets ++ [e.outer] ∧
      ∃ set', s'.heap.get e.outer = some set' ∧ set'.event = rtEventCreate Tid)

/-- `allocIn` of a living set that is not full. -/
theorem allocIn_spec (h : Core s held) {w : Nat} {set : CompactedEventSet Tid}
    (hg : s.heap.get w = some set) (hfull : set.full = false) :
    ∃ e set', allocIn s w =
        .ok (e, { s with heap := (s.heap.modify w fun _ => set').acquire w
                         events := e :: s.events
                         nextEvent := s.nextEvent + 1 }) ∧
      e.id = s.nextEvent ∧ e.outer = w ∧ ¬ Taken s w e.bit ∧ set'.event = set.event ∧
      Core { s with heap := (s.heap.modify w fun _ => set').acquire w
                    events := e :: s.events
                    nextEvent := s.nextEvent + 1 } held := by
  obtain ⟨b, set', halloc, hfree, hevent, huses⟩ := CompactedEventSet.alloc_ok hfull
  have huntaken : ¬ Taken s w b := by
    rw [← h.bits w set hg b, hfree]; simp
  refine ⟨⟨s.nextEvent, w, b⟩, set', by simp [allocIn, hg, halloc], rfl, rfl, huntaken, hevent, ?_⟩
  refine ⟨?_, ?_, ?_, ?_, ?_⟩
  · exact (h.counted.modify w _).acquire (h.counted.mem_of_get hg)
  · rw [List.map_cons, List.nodup_cons]
    refine ⟨?_, h.ids_nodup⟩
    intro hmem
    obtain ⟨e', he', hid⟩ := List.mem_map.mp hmem
    have hlt := h.ids_lt e' he'
    simp only at hid
    omega
  · intro e' he'
    show e'.id < s.nextEvent + 1
    rcases List.mem_cons.mp he' with rfl | he'
    · exact Nat.lt_succ_self _
    · exact Nat.lt_succ_of_lt (h.ids_lt e' he')
  · rw [List.map_cons, List.nodup_cons]
    refine ⟨?_, h.slots_nodup⟩
    intro hmem
    obtain ⟨e', he', hslot⟩ := List.mem_map.mp hmem
    obtain ⟨hw, hb⟩ := Prod.mk.inj hslot
    exact huntaken ⟨e', he', hw, hb⟩
  · -- the bitmap of `w` gains the bit, and `w` the `Event`; the other sets keep both
    intro w' set₁ hw' c
    have hcons : Taken (⟨(s.heap.modify w fun _ => set').acquire w, s.eventSets,
        ⟨s.nextEvent, w, b⟩ :: s.events, s.nextEvent + 1, s.waiting, s.results⟩ : State Tid) w' c
        ↔ (w = w' ∧ b = c) ∨ Taken s w' c := by
      simp [Taken]
    rw [hcons]
    simp only [get_acquire] at hw'
    by_cases hne : w' = w
    · subst hne
      rw [get_modify_self, hg] at hw'
      obtain rfl := Option.some.inj hw'
      rw [huses c, Bool.or_eq_true, decide_eq_true_eq, h.bits w' set hg c]
      simp only [true_and, eq_comm (a := b)]
      exact or_comm
    · rw [get_modify_of_ne _ _ hne] at hw'
      rw [h.bits w' set₁ hw' c]
      simp [Ne.symm hne]

/-! ### Dropping an owner -/

/-- What is still there after a `release` was there before. -/
theorem get_of_release (h : Core s held) {w w' : Nat} {set : CompactedEventSet Tid}
    (hw : w ∈ outers s ++ held) (hg : (s.heap.release w).get w' = some set) :
    s.heap.get w' = some set := by
  rw [h.counted.get_release hw] at hg
  split at hg
  · exact hg
  · cases hg

/-- An owner other than a live `Event` lets go of its set. -/
theorem Core.release {w : Nat} (h : Core s (w :: held)) :
    Core { s with heap := s.heap.release w } held := by
  refine ⟨h.counted.release_middle, h.ids_nodup, h.ids_lt, h.slots_nodup, ?_⟩
  intro w' set hw'
  exact h.bits w' set (get_of_release h (by simp) hw')

/-- A set that another owner keeps survives. -/
theorem Core.get_release_owned {w : Nat} (h : Core s (w :: held)) (hw : HasEvent s w) :
    (s.heap.release w).get w = s.heap.get w := by
  obtain ⟨e, he, hout⟩ := hw
  obtain ⟨set, hset⟩ := h.release.get_outer he
  rw [hout] at hset
  rw [hset, get_of_release h (by simp) hset]

/-- **`alloc` never throws**, and does what `Allocated` says. -/
theorem alloc_spec (h : Core s held) :
    ∃ e s', alloc s = .ok (e, s') ∧ Allocated s e s' ∧ Core s' held := by
  cases hpick : pick s with
  | mk w s₁ =>
    have hp : Picked s w s₁ := by simpa [hpick] using pick_picked s
    obtain ⟨hcore, set, hg, hfull⟩ := hp.core h
    obtain ⟨e, set', hin, hid, hw, huntaken, hevent, hcore'⟩ := allocIn_spec hcore hg hfull
    refine ⟨e, _, by simp only [alloc, hpick, hin], ?_, hcore'.release⟩
    -- the local goes out of scope, but the new `Event` owns its set
    have hself := (hcore'.get_release_owned ⟨e, List.mem_cons_self, hw⟩).trans (get_acquire _ w w)
    rw [get_modify_self, hg] at hself
    have hframe : ∀ w', w' ≠ e.outer →
        (((s₁.heap.modify w fun _ => set').acquire w).release w).get w' = s₁.heap.get w' := by
      intro w' hne
      rw [hw] at hne
      rw [get_release_of_ne _ hne, get_acquire, get_modify_of_ne _ _ hne]
    rw [← hw] at huntaken hg
    cases hp with
    | listed hav =>
      rw [← hw] at hav
      exact ⟨hid, rfl, rfl, rfl, rfl, huntaken,
        fun w' hne => (hframe w' hne).trans (get_acquire _ _ _),
        .inl ⟨hav, rfl, rfl, set, set', by simpa using hg, by rw [hw]; exact hself, hevent⟩⟩
    | fresh hav =>
      have hnew := Option.some.inj ((get_make_self s.heap _).symm.trans (hw ▸ hg))
      exact ⟨hid, rfl, rfl, rfl, rfl, huntaken,
        fun w' hne => (hframe w' hne).trans (get_make_of_ne _ _ (hw ▸ hne)),
        .inr ⟨hav, hw, by rw [hw], set', by rw [hw]; exact hself, by rw [hevent, ← hnew]; rfl⟩⟩

/-- What an `alloc` that returned has done. -/
theorem alloc_allocated (h : Core s held) (ha : alloc s = .ok (e, s')) :
    Allocated s e s' ∧ Core s' held := by
  obtain ⟨e₁, s₁, ha₁, hall, hcore⟩ := alloc_spec h
  obtain ⟨rfl, rfl⟩ := Prod.mk.inj (Except.ok.inj (ha₁.symm.trans ha))
  exact ⟨hall, hcore⟩

/-! ### The destructor, piece by piece -/

/-- `free` resets the bit: the `Event` is gone, and its set is owned by the destructor. -/
theorem resetBit_core (h : Core s held) (he : e ∈ s.events) :
    Core (resetBit s e) (e.outer :: held) := by
  have hperm : s.events.Perm (e :: s.events.erase e) := List.perm_cons_erase he
  have hsub : (s.events.erase e).Sublist s.events := List.erase_sublist
  refine ⟨?_, h.ids_nodup.sublist (hsub.map _), fun e' he' => h.ids_lt e' (hsub.mem he'),
    h.slots_nodup.sublist (hsub.map _), ?_⟩
  · have howners : (outers s ++ held).Perm ((s.events.erase e).map Event.outer ++ e.outer :: held) :=
      ((hperm.map Event.outer).append_right held).trans List.perm_middle.symm
    exact (h.counted.modify e.outer fun set => set.reset e.bit).perm howners
  · intro w set hw c
    -- the slot of `e` is free now, and no other `Event` had it
    have htaken : Taken (resetBit s e) w c ↔ Taken s w c ∧ ¬ (e.outer = w ∧ e.bit = c) := by
      constructor
      · rintro ⟨e', he', rfl, rfl⟩
        obtain ⟨hne, hmem⟩ := h.events_nodup.mem_erase_iff.mp he'
        exact ⟨⟨e', hmem, rfl, rfl⟩, fun hs => hne (h.eq_of_slot hmem he hs.1.symm hs.2.symm)⟩
      · rintro ⟨⟨e', hmem, rfl, rfl⟩, hne⟩
        refine ⟨e', h.events_nodup.mem_erase_iff.mpr ⟨?_, hmem⟩, rfl, rfl⟩
        rintro rfl
        exact hne ⟨rfl, rfl⟩
    rw [htaken]
    have hget : (s.heap.modify e.outer fun set => set.reset e.bit).get w = some set := hw
    by_cases hne : w = e.outer
    · subst hne
      rw [get_modify_self] at hget
      obtain ⟨set₀, h₀, rfl⟩ := Option.map_eq_some_iff.mp hget
      rw [CompactedEventSet.uses_reset, Bool.and_eq_true, h.bits _ set₀ h₀ c, decide_eq_true_eq]
      simp only [true_and, ne_eq, eq_comm (a := c)]
    · rw [get_modify_of_ne _ _ hne] at hget
      rw [h.bits w set hget c]
      simp [Ne.symm hne]

/-- The test `bits.none()` says whether the set still has a live `Event`. -/
theorem unused_iff {w : Nat} (h : Core s held) {set : CompactedEventSet Tid}
    (hg : s.heap.get w = some set) : unused s w = true ↔ ¬ HasEvent s w := by
  have hbits := h.bits w set hg
  simp only [unused, hg, CompactedEventSet.unused_iff]
  constructor
  · rintro hall ⟨e, he, hw⟩
    have hb := (hbits e.bit).mpr ⟨e, he, hw, rfl⟩
    rw [hall e.bit] at hb
    cases hb
  · intro hno b
    by_contra hb
    obtain ⟨e, he, hw, _⟩ := (hbits b).mp (by simpa using hb)
    exact hno ⟨e, he, hw⟩

theorem free_eq (s : State Tid) (e : Event) :
    free s e = if unused (resetBit s e) e.outer then dispose (resetBit s e) e.outer
      else resetBit s e := rfl

theorem dispose_core (h : Core s held) (w : Nat) : Core (dispose s w) held := h.congr rfl rfl rfl

theorem free_core (h : Core s held) (he : e ∈ s.events) : Core (free s e) (e.outer :: held) := by
  have hreset := resetBit_core h he
  rw [free_eq]
  split
  · exact dispose_core hreset _
  · exact hreset

section

variable [DecidableEq Tid]

@[simp] theorem finish_heap (s : State Tid) (t : Tid) (ok : Bool) :
    (finish s t ok).heap = s.heap := by
  unfold finish; split <;> rfl

@[simp] theorem finish_events (s : State Tid) (t : Tid) (ok : Bool) :
    (finish s t ok).events = s.events := by
  unfold finish; split <;> rfl

@[simp] theorem finish_eventSets (s : State Tid) (t : Tid) (ok : Bool) :
    (finish s t ok).eventSets = s.eventSets := by
  unfold finish; split <;> rfl

@[simp] theorem finish_nextEvent (s : State Tid) (t : Tid) (ok : Bool) :
    (finish s t ok).nextEvent = s.nextEvent := by
  unfold finish; split <;> rfl

/-- Resuming threads touches only who waits and which waits have finished. -/
theorem resume_frame (s : State Tid) (ws : List (Waiter Tid)) (ok : Bool) :
    (resume s ws ok).heap = s.heap ∧ (resume s ws ok).events = s.events ∧
      (resume s ws ok).eventSets = s.eventSets ∧ (resume s ws ok).nextEvent = s.nextEvent := by
  induction ws generalizing s with
  | nil => exact ⟨rfl, rfl, rfl, rfl⟩
  | cons w ws ih =>
    obtain ⟨h1, h2, h3, h4⟩ := ih (finish s w.thread ok)
    exact ⟨h1.trans (by simp), h2.trans (by simp), h3.trans (by simp), h4.trans (by simp)⟩

/-- Releasing the member `outer` drops one owner; the registry and the `Event`s stay. -/
theorem releaseOuter_frame (s : State Tid) (w : Nat) :
    (releaseOuter s w).heap = s.heap.release w ∧ (releaseOuter s w).events = s.events ∧
      (releaseOuter s w).eventSets = s.eventSets ∧
      (releaseOuter s w).nextEvent = s.nextEvent := by
  cases hg : s.heap.get w with
  | none => simp [releaseOuter, hg]
  | some set =>
    cases hg' : (s.heap.release w).get w with
    | none => simpa [releaseOuter, hg, hg'] using resume_frame _ set.event.suspendThread false
    | some set' => simp [releaseOuter, hg, hg']

theorem releaseOuter_core {w : Nat} (h : Core s (w :: held)) : Core (releaseOuter s w) held := by
  obtain ⟨h1, h2, _, h4⟩ := releaseOuter_frame s w
  exact h.release.congr h1 h2 h4

theorem destroy_core (h : Core s held) (he : e ∈ s.events) : Core (destroy s e) held :=
  releaseOuter_core (free_core h he)

end

end RtCharger.Os.EventAllocator
