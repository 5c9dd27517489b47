import RtCharger.Os.EventWaits

namespace RtCharger.Os.EventAllocator

open Kernel SharedHeap StepSystem OneHot

/-!
# Live events do not interfere

Up to thirty-two `Event`s share one kernel word and one list of suspended threads.  Each of
them nevertheless behaves as if it were alone: `project s e` is the private auto-reset event
that a client of `e` sees, and every run is, event by event, a run of private events.

* `opOn id` — the operation on the `Event` `id` that an action is, if it is one;
* `step_matched` — one action: an operation on `e` is the operation of the private event, any
  other action is not noticed;
* `event_isolation` — whole runs, by the simulation rule.
-/

variable {Tid : Type} {s s' : State Tid} {held : List Nat} {e e' : Event}

/-- The finished waits of one `Event`. -/
def resultsOf (s : State Tid) (id : Nat) : List (Tid × Bool) :=
  (s.results.filter fun r => decide (r.event = id)).map fun r => (r.thread, r.ok)

/-- The private event that the clients of `e` see. -/
def project (s : State Tid) (e : Event) : AutoReset.State Tid :=
  match s.heap.get e.outer with
  | some set => view set.event e.bit (resultsOf s e.id)
  | none     => { AutoReset.initial with results := resultsOf s e.id }

/-- The operation on the `Event` `id` that an action of the program is. -/
def opOn (id : Nat) : Act Tid → Option (AutoReset.Op Tid)
  | .set id'          => if id' = id then some .set else none
  | .wait t id' d     => if id' = id then some (.wait t (CompactedEventSet.rtTimeout d)) else none
  | .timeout t id'    => if id' = id then some (.timeout t) else none
  | _                 => none

theorem project_of_get {set : CompactedEventSet Tid} (hg : s.heap.get e.outer = some set) :
    project s e = view set.event e.bit (resultsOf s e.id) := by
  simp [project, hg]

theorem resultsOf_congr (h : s'.results = s.results) (id : Nat) :
    resultsOf s' id = resultsOf s id := by
  rw [resultsOf, h]
  rfl

/-- What an operation on `e` does to the private event of `e`. -/
theorem KernelOp.project_self {event' : RtEvent Tid} {fin : List (Tid × Bool)}
    (h : KernelOp s e event' fin s') {set : CompactedEventSet Tid}
    (hg : s.heap.get e.outer = some set) :
    project s' e = view event' e.bit (resultsOf s e.id ++ fin) := by
  have hres : resultsOf s' e.id = resultsOf s e.id ++ fin := by
    simp [resultsOf, h.results, List.filter_append, List.filter_map, Function.comp_def]
  rw [project_of_get (h.get_self hg), hres]

/-- An operation on `e` is not noticed by another `Event` unless it changes the view of its
    bit. -/
theorem KernelOp.project_other {event' : RtEvent Tid} {fin : List (Tid × Bool)}
    (h : KernelOp s e event' fin s') (hid : e'.id ≠ e.id)
    (hslot : e'.outer = e.outer → e'.bit ≠ e.bit) {set : CompactedEventSet Tid}
    (hg : s.heap.get e.outer = some set)
    (hview : ∀ c rs, c ≠ e.bit → view event' c rs = view set.event c rs) :
    project s' e' = project s e' := by
  have hres : resultsOf s' e'.id = resultsOf s e'.id := by
    simp [resultsOf, h.results, List.filter_append, List.filter_map, Function.comp_def,
      Ne.symm hid]
  by_cases hw : e'.outer = e.outer
  · -- the two share a kernel event, but not the bit
    rw [project_of_get (by rw [hw]; exact h.get_self hg), hres, project_of_get (hw ▸ hg)]
    exact hview _ _ (hslot hw)
  · rw [project, h.get_other hw, hres]
    rfl

theorem Core.slot_ne (hc : Core s held) (he : e ∈ s.events) (he' : e' ∈ s.events)
    (hid : e'.id ≠ e.id) : e'.outer = e.outer → e'.bit ≠ e.bit := by
  intro hw hb
  exact hid (by rw [hc.eq_of_slot he' he hw hb])

/-- A new `Event` is not noticed by the others. -/
theorem Allocated.project_eq (hc : Core s held) (ha : Allocated s e' s') (he : e ∈ s.events) :
    project s' e = project s e := by
  have hres := resultsOf_congr ha.results e.id
  obtain ⟨set, hg⟩ := hc.get_outer he
  by_cases hw : e.outer = e'.outer
  · rcases ha.origin with ⟨_, _, _, set₀, set', hg₀, hg', heq⟩ | ⟨_, hnew, _⟩
    · -- the set of `e` has a bit more in use, but its kernel event is as it was
      rw [← hw] at hg₀ hg'
      obtain rfl := Option.some.inj (hg₀.symm.trans hg)
      rw [project_of_get hg', project_of_get hg, hres, heq]
    · exact absurd ⟨e, he, hw.trans hnew⟩ hc.not_hasEvent_next
  · rw [project, ha.frame _ hw, hres]
    rfl

variable [DecidableEq Tid]

/-- The destruction of an `Event` is not noticed by the others. -/
theorem destroy_project (hc : Core s []) (hw : Waits s) (he : e ∈ s.events) (he' : e' ∈ s.events)
    (hne : e'.id ≠ e.id) : project (destroy s e) e' = project s e' := by
  obtain ⟨fin, hd⟩ := destroy_spec hc hw he
  have hlive : e' ∈ (destroy s e).events := by
    rw [hd.events]
    refine hc.events_nodup.mem_erase_iff.mpr ⟨?_, he'⟩
    rintro rfl
    exact hne rfl
  obtain ⟨set', hg'⟩ := (destroy_core hc he).get_outer hlive
  obtain ⟨set, hg, heq⟩ := hd.back _ _ hg'
  -- whoever gets an error was in the `wait` of `e`
  have hres : resultsOf (destroy s e) e'.id = resultsOf s e'.id := by
    simp [resultsOf, hd.results, List.filter_append, List.filter_map, Function.comp_def,
      Ne.symm hne]
  rw [project_of_get hg', project_of_get hg, heq, hres]

theorem setEvent_matched (hc : Core s held) (hw : Waits s) (he : e ∈ s.events)
    (he' : e' ∈ s.events) (h : setEvent s e = some s') :
    Matched AutoReset.step (project · e') (opOn e'.id) s (.set e.id) s' := by
  obtain ⟨set, event', resumed, hg, hsent, hop, _⟩ := setEvent_spec hc hw he h
  by_cases hid : e.id = e'.id
  · obtain rfl := hc.eq_of_id he he' hid
    simp only [Matched, opOn, if_true, AutoReset.step]
    rw [hop.project_self hg, project_of_get hg, hsent.view_self]
  · simp only [Matched, opOn, if_neg hid]
    exact hop.project_other (Ne.symm hid) (hc.slot_ne he he' (Ne.symm hid)) hg
      fun c rs hne => hsent.view_other hne rs

theorem waitEvent_matched {t : Tid} {d : Int} (hc : Core s held) (he : e ∈ s.events)
    (he' : e' ∈ s.events) (h : waitEvent s t e d = some s') :
    Matched AutoReset.step (project · e') (opOn e'.id) s (.wait t e.id d) s' := by
  obtain ⟨set, hg, hop, _⟩ := waitEvent_spec h
  by_cases hid : e.id = e'.id
  · obtain rfl := hc.eq_of_id he he' hid
    simp only [Matched, opOn, if_true, AutoReset.step]
    rw [hop.project_self hg, project_of_get hg, recv_view_self]
  · simp only [Matched, opOn, if_neg hid]
    exact hop.project_other (Ne.symm hid) (hc.slot_ne he he' (Ne.symm hid)) hg
      fun c rs hne => recv_view_other set.event t _ hne rs

theorem timeoutEvent_matched {t : Tid} (hc : Core s held) (hw : Waits s) (he' : e' ∈ s.events)
    (ht : s.waiting t = some e) (h : timeoutEvent s t e = some s') :
    Matched AutoReset.step (project · e') (opOn e'.id) s (.timeout t e.id) s' := by
  obtain ⟨set, event', hg, hto, hop, _⟩ := timeoutEvent_spec ht h
  have he := hw.live_of_timeout ht hg hto
  have hmask := hw.mask_of_thread ht hg
  by_cases hid : e.id = e'.id
  · obtain rfl := hc.eq_of_id he he' hid
    simp only [Matched, opOn, if_true, AutoReset.step]
    rw [hop.project_self hg, project_of_get hg, timeout_view_self hto hmask]
  · simp only [Matched, opOn, if_neg hid]
    exact hop.project_other (Ne.symm hid) (hc.slot_ne he he' (Ne.symm hid)) hg
      fun c rs hne => timeout_view_other hto hmask hne rs

/-- **One action.**  An operation on `e` is the operation of its private event; every other
    action, the destruction of `e` apart, leaves the private event as it is. -/
theorem step_matched {a : Act Tid} (hinv : Inv s) (hw : Waits s) (he : e ∈ s.events)
    (ha : a ≠ .destroy e.id) (hstep : step s a = some s') :
    Matched AutoReset.step (project · e) (opOn e.id) s a s' ∧ e ∈ s'.events := by
  cases step_stepped hstep with
  | alloc halloc =>
    obtain ⟨hall, _⟩ := alloc_allocated hinv.core halloc
    exact ⟨hall.project_eq hinv.core he, by rw [hall.events]; exact List.mem_cons_of_mem _ he⟩
  | @destroy e₁ he₁ =>
    have hid : e.id ≠ e₁.id := fun h => ha (by rw [h])
    obtain ⟨fin, hd⟩ := destroy_spec hinv.core hw he₁
    refine ⟨destroy_project hinv.core hw he₁ he hid, ?_⟩
    rw [hd.events]
    refine hinv.core.events_nodup.mem_erase_iff.mpr ⟨?_, he⟩
    rintro rfl
    exact hid rfl
  | set he₁ h =>
    exact ⟨setEvent_matched hinv.core hw he₁ he h, by rw [(setEvent_same h).events]; exact he⟩
  | wait he₁ _ h =>
    exact ⟨waitEvent_matched hinv.core he₁ he h, by rw [(waitEvent_same h).events]; exact he⟩
  | timeout ht h =>
    exact ⟨timeoutEvent_matched hinv.core hw he ht h, by rw [(timeoutEvent_same h).events]; exact he⟩

/-- **Live events do not interfere.**  From any reachable state, along any run that does not
    destroy the live `Event` `e`, what the clients of `e` see is the run of one private
    auto-reset event under the operations on `e` alone.  The destructions before and on the way
    leave nobody behind in the `wait` of a destroyed `Event`. -/
theorem event_isolation {as bs : List (Act Tid)} (h₀ : Runs step DestroysIdle (initial Tid) as s)
    (he : e ∈ s.events)
    (h : Runs step (fun s a => DestroysIdle s a ∧ a ≠ .destroy e.id) s bs s') :
    run AutoReset.step (project s e) (bs.filterMap (opOn e.id)) = some (project s' e) := by
  obtain ⟨hinv, hw⟩ := runs_waits h₀
  refine h.simulate (fun s => (Inv s ∧ Waits s) ∧ e ∈ s.events) (project · e) ?_ ?_ ⟨⟨hinv, hw⟩, he⟩
  · rintro s a s' ⟨⟨hinv, hw⟩, he⟩ ⟨hidle, ha⟩ hstep
    exact ⟨⟨step_inv hinv hstep, step_waits hinv hw hidle hstep⟩,
      (step_matched hinv hw he ha hstep).2⟩
  · rintro s a s' ⟨⟨hinv, hw⟩, he⟩ ⟨_, ha⟩ hstep
    exact (step_matched hinv hw he ha hstep).1

/-- Two `Event`s in one set, three threads: the `Event` `0` sees its own operations only. -/
theorem event_isolation_shared : ∃ s s' : State Nat, ∃ e ∈ s.events,
    Runs step (fun s a => DestroysIdle s a ∧ a ≠ .destroy e.id) s
      [.wait 7 0 CompactedEventSet.millisecondsMax, .wait 8 0 5, .wait 9 1 5, .set 1, .set 0,
        .timeout 8 0, .set 0] s' ∧
    run AutoReset.step (project s e) [.wait 7 (-1), .wait 8 5, .set, .timeout 8, .set]
      = some (project s' e) := by
  have h₀ : Runs step DestroysIdle (initial Nat) [.alloc, .alloc] _ :=
    runs_checked_get (by decide)
  have he : (⟨0, 0, 0⟩ : Event) ∈ ((checkedRun step DestroysIdle (initial Nat)
      [.alloc, .alloc]).get (by decide)).events := by decide
  have h : Runs step (fun s a => DestroysIdle s a ∧ a ≠ .destroy 0)
      ((checkedRun step DestroysIdle (initial Nat) [.alloc, .alloc]).get (by decide))
      [.wait 7 0 CompactedEventSet.millisecondsMax, .wait 8 0 5, .wait 9 1 5, .set 1, .set 0,
        .timeout 8 0, .set 0] _ := runs_checked_get (by decide)
  exact ⟨_, _, _, he, h, event_isolation h₀ he h⟩

end RtCharger.Os.EventAllocator
