import RtCharger.Kernel.BitView
import RtCharger.Os.AllocatorInvariant

namespace RtCharger.Os.EventAllocator

open Kernel SharedHeap StepSystem OneHot

/-!
# Who waits for what

The part of the state that `set`, `wait` and time-outs work on.

* `Waits` — every thread on the list of a set waits for the one bit of a live `Event` of that
  set, a bit that is not set, and is known to be inside the `wait` of that `Event`;
* `KernelOp` — what the three operations change: one kernel event, and the waits of one
  `Event` that they finish;
* `setEvent_spec`, `waitEvent_spec`, `timeoutEvent_spec` — each operation as a `KernelOp`;
* `destroy_spec` — a destruction, and who gets an error from it;
* `DestroysIdle` — no destruction leaves a thread behind in the `wait` of the destroyed `Event`;
* `step_waits`, `runs_waits` — `Waits` along every such run.
-/

variable {Tid : Type} {s s' : State Tid} {held : List Nat} {e e' : Event}

/-- Every suspended thread waits for one clear bit, that of the live `Event` in whose `wait`
    it is. -/
structure Waits (s : State Tid) : Prop where
  blocked : ∀ w set, s.heap.get w = some set → ∀ x ∈ set.event.suspendThread,
    ∃ e ∈ s.events, e.outer = w ∧ x.OnBit e.bit ∧ bit set.event.set e.bit = false ∧
      s.waiting x.thread = some e
  threads_nodup : ∀ w set, s.heap.get w = some set →
    (set.event.suspendThread.map Waiter.thread).Nodup

theorem initial_waits (Tid : Type) : Waits (initial Tid) :=
  ⟨by simp [initial], by simp [initial]⟩

theorem Waits.allBlocked (h : Waits s) {w : Nat} {set : CompactedEventSet Tid}
    (hg : s.heap.get w = some set) : AllBlocked set.event.set set.event.suspendThread := by
  intro x hx
  obtain ⟨e, _, _, hon, hclear, _⟩ := h.blocked w set hg x hx
  exact ⟨e.bit, hon, hclear⟩

/-- A thread on the list for the bit of a live `Event` is inside the `wait` of that `Event`. -/
theorem Waits.waiting_of_mask (h : Waits s) (hc : Core s held) (he : e ∈ s.events)
    {set : CompactedEventSet Tid} (hg : s.heap.get e.outer = some set) {x : Waiter Tid}
    (hx : x ∈ set.event.suspendThread) (hm : x.eventSet = oneHot e.bit) :
    s.waiting x.thread = some e := by
  obtain ⟨e₁, he₁, hw, hon, _, hwait⟩ := h.blocked e.outer set hg x hx
  have hb : e₁.bit = e.bit := oneHot_inj.mp (hon.2.symm.trans hm)
  rwa [hc.eq_of_slot he₁ he hw hb] at hwait

/-- A thread on a list and inside the `wait` of an `Event` waits there for the bit of that
    `Event`, which lives. -/
theorem Waits.mask_of_waiting (h : Waits s) {w : Nat} {set : CompactedEventSet Tid}
    (hg : s.heap.get w = some set) {x : Waiter Tid} (hx : x ∈ set.event.suspendThread)
    (hwait : s.waiting x.thread = some e) :
    e ∈ s.events ∧ w = e.outer ∧ x.eventSet = oneHot e.bit := by
  obtain ⟨e₁, he₁, hw, hon, _, hwait₁⟩ := h.blocked w set hg x hx
  obtain rfl := Option.some.inj (hwait₁.symm.trans hwait)
  exact ⟨he₁, hw.symm, hon.2⟩

/-- A thread inside the `wait` of an `Event` waits for no other bit. -/
theorem Waits.mask_of_thread (h : Waits s) {t : Tid} (ht : s.waiting t = some e) {w : Nat}
    {set : CompactedEventSet Tid} (hg : s.heap.get w = some set) :
    ∀ x ∈ set.event.suspendThread, x.thread = t → x.eventSet = oneHot e.bit := by
  rintro x hx rfl
  exact (h.mask_of_waiting hg hx ht).2.2

/-! ### The three operations -/

/-- One kernel event is replaced and some waits of `e` finish. -/
structure KernelOp (s : State Tid) (e : Event) (event' : RtEvent Tid) (fin : List (Tid × Bool))
    (s' : State Tid) : Prop where
  heap : s'.heap = s.heap.modify e.outer fun set => { set with event := event' }
  events : s'.events = s.events
  results : s'.results = s.results ++ fin.map fun r => ⟨e.id, r.1, r.2⟩

theorem KernelOp.get_self {event' : RtEvent Tid} {fin : List (Tid × Bool)}
    (h : KernelOp s e event' fin s') {set : CompactedEventSet Tid}
    (hg : s.heap.get e.outer = some set) :
    s'.heap.get e.outer = some { set with event := event' } := by
  rw [h.heap, get_modify_self, hg]
  rfl

theorem KernelOp.get_other {event' : RtEvent Tid} {fin : List (Tid × Bool)}
    (h : KernelOp s e event' fin s') {w : Nat} (hne : w ≠ e.outer) :
    s'.heap.get w = s.heap.get w := by
  rw [h.heap, get_modify_of_ne _ _ hne]

variable [DecidableEq Tid]

/-- Threads that are inside the `wait` of `e` are resumed: none of them waits any more, and their
    waits have finished in the order of the list. -/
theorem resume_spec (ws : List (Waiter Tid)) (ok : Bool) (hnd : (ws.map Waiter.thread).Nodup)
    (hwait : ∀ x ∈ ws, s.waiting x.thread = some e) :
    (resume s ws ok).waiting =
        (fun t => if t ∈ ws.map Waiter.thread then none else s.waiting t) ∧
      (resume s ws ok).results = s.results ++ ws.map fun x => ⟨e.id, x.thread, ok⟩ := by
  induction ws generalizing s with
  | nil => simp [resume]
  | cons w ws ih =>
    obtain ⟨hnot, hnd⟩ := List.nodup_cons.mp hnd
    have hw : finish s w.thread ok = { s with
        waiting := Function.update s.waiting w.thread none
        results := s.results ++ [⟨e.id, w.thread, ok⟩] } := by
      simp [finish, hwait w List.mem_cons_self]
    have hrest : ∀ x ∈ ws, (finish s w.thread ok).waiting x.thread = some e := by
      intro x hx
      have hne : x.thread ≠ w.thread := fun heq => hnot (heq ▸ List.mem_map_of_mem hx)
      rw [hw]
      exact (Function.update_of_ne hne _ _).trans (hwait x (List.mem_cons_of_mem _ hx))
    obtain ⟨hwaiting, hresults⟩ := ih hnd hrest
    refine ⟨?_, ?_⟩
    · funext t
      show (resume (finish s w.thread ok) ws ok).waiting t = _
      rw [hwaiting, hw]
      by_cases ht : t = w.thread
      · simp [ht]
      · simp [ht]
    · show (resume (finish s w.thread ok) ws ok).results = _
      rw [hresults, hw]
      simp

/-- `Event::set`: a send of the one bit; the thread it wakes was waiting for this `Event`. -/
theorem setEvent_spec (hc : Core s held) (hw : Waits s) (he : e ∈ s.events)
    (h : setEvent s e = some s') :
    ∃ set event' resumed, s.heap.get e.outer = some set ∧
      SentBit set.event e.bit event' resumed ∧
      KernelOp s e event' (resumed.map fun w => (w.thread, true)) s' ∧
      s'.waiting = fun t => if t ∈ resumed.map Waiter.thread then none else s.waiting t := by
  unfold setEvent at h
  split at h
  · cases h
  · rename_i set hg
    obtain ⟨event', resumed, hsend, hsent⟩ := rtEventSend_oneHot e.bit (hw.allBlocked hg)
    have hset : set.set e.bit = (resumed, { set with event := event' }) := by
      simp [CompactedEventSet.set, hsend]
    have hheap : s.heap.modify e.outer (fun _ => { set with event := event' })
        = s.heap.modify e.outer fun set => { set with event := event' } := modify_congr hg rfl
    simp only [hset, hheap, Option.some.injEq] at h
    subst h
    have hres : (resumed.map Waiter.thread).Nodup ∧ ∀ x ∈ resumed, s.waiting x.thread = some e := by
      cases hsent with
      | mark => exact ⟨List.nodup_nil, fun x hx => nomatch hx⟩
      | @wake ws₁ ws₂ w hsplit _ hmask =>
        have hx : w ∈ set.event.suspendThread := by rw [hsplit]; simp
        refine ⟨List.nodup_singleton _, fun x hmem => ?_⟩
        rw [List.mem_singleton.mp hmem]
        exact hw.waiting_of_mask hc he hg hx hmask
    obtain ⟨hwaiting, hresults⟩ := resume_spec (s := { s with
      heap := s.heap.modify e.outer fun set => { set with event := event' } }) resumed true
      hres.1 hres.2
    obtain ⟨hheap', hev, _, _⟩ := resume_frame { s with
      heap := s.heap.modify e.outer fun set => { set with event := event' } } resumed true
    exact ⟨set, event', resumed, hg, hsent,
      ⟨hheap', hev, by rw [hresults, List.map_map]; rfl⟩, hwaiting⟩

/-- `Event::wait`: a wait for the one bit; the thread is suspended iff the kernel suspends it. -/
theorem waitEvent_spec {t : Tid} {d : Int} (h : waitEvent s t e d = some s') :
    ∃ set, s.heap.get e.outer = some set ∧
      let r := rtEventRecv set.event t (oneHot e.bit) andClear (CompactedEventSet.rtTimeout d)
      KernelOp s e r.2 (r.1.finished t) s' ∧
      s'.waiting = if r.1 = .suspended then Function.update s.waiting t (some e)
        else s.waiting := by
  unfold waitEvent at h
  split at h
  · cases h
  · rename_i set hg
    refine ⟨set, hg, ?_⟩
    have hheap : s.heap.modify e.outer (fun _ => (set.wait t e.bit d).2)
        = s.heap.modify e.outer fun set' => { set' with event := (rtEventRecv set.event t
            (oneHot e.bit) andClear (CompactedEventSet.rtTimeout d)).2 } := modify_congr hg rfl
    simp only [hheap] at h
    simp only [CompactedEventSet.wait] at h
    generalize rtEventRecv set.event t (oneHot e.bit) andClear
      (CompactedEventSet.rtTimeout d) = r at h
    obtain ⟨r, event'⟩ := r
    cases r with
    | received v =>
      obtain rfl := Option.some.inj h
      exact ⟨⟨rfl, rfl, rfl⟩, by simp⟩
    | failed err =>
      obtain rfl := Option.some.inj h
      exact ⟨⟨rfl, rfl, rfl⟩, by simp⟩
    | suspended =>
      obtain rfl := Option.some.inj h
      exact ⟨⟨rfl, rfl, by simp [Recv.finished]⟩, by simp⟩
    | assertFailed => cases h

/-- A time-out: the thread leaves the list and its wait fails. -/
theorem timeoutEvent_spec {t : Tid} (ht : s.waiting t = some e)
    (h : timeoutEvent s t e = some s') :
    ∃ set event', s.heap.get e.outer = some set ∧
      rtThreadTimeout set.event t = some event' ∧ KernelOp s e event' [(t, false)] s' ∧
      s'.waiting = Function.update s.waiting t none := by
  unfold timeoutEvent at h
  split at h
  · cases h
  · rename_i set hg
    split at h
    · cases h
    · rename_i event' hto
      obtain rfl := Option.some.inj h
      exact ⟨set, event', hg, hto, ⟨by simp, by simp, by simp [finish, ht]⟩, by simp [finish, ht]⟩

/-- The `Event` in whose `wait` a thread times out lives. -/
theorem Waits.live_of_timeout (h : Waits s) {t : Tid} (ht : s.waiting t = some e)
    {w : Nat} {set : CompactedEventSet Tid} {event' : RtEvent Tid} (hg : s.heap.get w = some set)
    (hto : rtThreadTimeout set.event t = some event') : e ∈ s.events := by
  obtain ⟨⟨x, hx, rfl, _⟩, _⟩ := rtThreadTimeout_some hto
  exact (h.mask_of_waiting hg hx ht).1

/-! ### Destruction -/

omit [DecidableEq Tid] in
theorem free_frame (s : State Tid) (e : Event) :
    (free s e).heap = s.heap.modify e.outer (fun set => set.reset e.bit) ∧
      (free s e).events = s.events.erase e ∧ (free s e).waiting = s.waiting ∧
      (free s e).results = s.results := by
  rw [free_eq]
  split <;> exact ⟨rfl, rfl, rfl, rfl⟩

omit [DecidableEq Tid] in
/-- Nobody on the list of the set of a destroyed `Event` waits for its bit. -/
theorem noWaiter_iff {set : CompactedEventSet Tid} (hg : s.heap.get e.outer = some set) :
    noWaiter s e = true ↔ ∀ x ∈ set.event.suspendThread, x.eventSet ≠ oneHot e.bit := by
  simp [noWaiter, hg]

omit [DecidableEq Tid] in
/-- The kernel event of a living set is that of the set before the bitmap was written. -/
theorem event_of_free {w : Nat} {set' : CompactedEventSet Tid}
    (hg : (free s e).heap.get w = some set') :
    ∃ set, s.heap.get w = some set ∧ set'.event = set.event := by
  rw [(free_frame s e).1] at hg
  by_cases hne : w = e.outer
  · subst hne
    rw [get_modify_self] at hg
    obtain ⟨set, hset, rfl⟩ := Option.map_eq_some_iff.mp hg
    exact ⟨set, hset, rfl⟩
  · rw [get_modify_of_ne _ _ hne] at hg
    exact ⟨set', hg, rfl⟩

omit [DecidableEq Tid] in
/-- Whoever is suspended on a set that a destructor leaves without owners is inside the `wait` of
    the destroyed `Event`. -/
theorem waiting_of_last (hc : Core s held) (hw : Waits s)
    (hlast : ¬ HasEvent (free s e) e.outer) {set : CompactedEventSet Tid}
    (hg : s.heap.get e.outer = some set) :
    ∀ x ∈ set.event.suspendThread, s.waiting x.thread = some e := by
  intro x hx
  obtain ⟨e₁, he₁, hout, _, _, hwait⟩ := hw.blocked e.outer set hg x hx
  by_cases heq : e₁ = e
  · rw [hwait, heq]
  · refine absurd ⟨e₁, ?_, hout⟩ hlast
    rw [(free_frame s e).2.1]
    exact hc.events_nodup.mem_erase_iff.mpr ⟨heq, he₁⟩

/-- Everything a destruction does: the `Event` is gone, the sets that live on keep their kernel
    events, and the threads `fin` in the `wait` of the `Event` get an error. -/
structure Destroyed (s : State Tid) (e : Event) (fin : List Tid) (s' : State Tid) : Prop where
  events : s'.events = s.events.erase e
  waiting : s'.waiting = fun t => if t ∈ fin then none else s.waiting t
  results : s'.results = s.results ++ fin.map fun t => ⟨e.id, t, false⟩
  woken : ∀ t ∈ fin, s.waiting t = some e
  back : ∀ w set', s'.heap.get w = some set' →
    ∃ set, s.heap.get w = some set ∧ set'.event = set.event

/-- **The destruction of an `Event`.**  With the last `Event` of a set everybody suspended on the
    set gets an error; otherwise nobody is woken. -/
theorem destroy_spec (hc : Core s []) (hw : Waits s) (he : e ∈ s.events) :
    ∃ fin, Destroyed s e fin (destroy s e) := by
  obtain ⟨hheap, hev, hwait, hres⟩ := free_frame s e
  have hfree : Core (free s e) [e.outer] := free_core hc he
  obtain ⟨set', hg'⟩ := hfree.counted.exists_get (List.mem_append_right _ (List.mem_singleton_self _))
  obtain ⟨h1, h2, _, _⟩ := releaseOuter_frame (free s e) e.outer
  have hback : ∀ w set', (destroy s e).heap.get w = some set' →
      ∃ set, s.heap.get w = some set ∧ set'.event = set.event := by
    intro w set₁ hg₁
    have hg₂ : ((free s e).heap.release e.outer).get w = some set₁ := by rw [← h1]; exact hg₁
    exact event_of_free (get_of_release hfree (by simp) hg₂)
  cases hr : ((free s e).heap.release e.outer).get e.outer with
  | some set'' =>
    have hsame : destroy s e = { free s e with heap := (free s e).heap.release e.outer } := by
      simp [destroy, releaseOuter, hg', hr]
    refine ⟨[], h2.trans hev, ?_, ?_, by simp, hback⟩
    · rw [hsame]
      simpa using hwait
    · rw [hsame]
      simpa using hres
  | none =>
    -- the last owner is gone, and the kernel event with it
    have hlast : ¬ HasEvent (free s e) e.outer := by
      intro hhas
      rw [hfree.get_release_owned hhas, hg'] at hr
      cases hr
    obtain ⟨set, hg, hevent⟩ := event_of_free hg'
    have hall := waiting_of_last hc hw hlast hg
    have hnd := hw.threads_nodup e.outer set hg
    rw [← hevent] at hall hnd
    have hsame : destroy s e = resume { free s e with heap := (free s e).heap.release e.outer }
        set'.event.suspendThread false := by
      simp [destroy, releaseOuter, hg', hr]
    obtain ⟨hwaiting, hresults⟩ := resume_spec (e := e)
      (s := { free s e with heap := (free s e).heap.release e.outer }) set'.event.suspendThread
      false hnd (fun x hx => by rw [hwait]; exact hall x hx)
    refine ⟨set'.event.suspendThread.map Waiter.thread, h2.trans hev, ?_, ?_, ?_, hback⟩
    · rw [hsame, hwaiting, hwait]
    · rw [hsame, hresults, hres, List.map_map]
      rfl
    · intro t ht
      obtain ⟨x, hx, rfl⟩ := List.mem_map.mp ht
      exact hall x hx

omit [DecidableEq Tid] in
/-- The last live `Event` of a set is its only one. -/
theorem eq_of_liveIn_one (he : e ∈ s.events) (he' : e' ∈ s.events) (hw : e'.outer = e.outer)
    (h : (liveIn s e.outer).length = 1) : e' = e := by
  obtain ⟨e₀, h₀⟩ := List.length_eq_one_iff.mp h
  have hmem : ∀ e₁ ∈ s.events, e₁.outer = e.outer → e₁ = e₀ := by
    intro e₁ he₁ hw₁
    have hin : e₁ ∈ liveIn s e.outer := by simp [liveIn, he₁, hw₁]
    rw [h₀] at hin
    exact List.mem_singleton.mp hin
  rw [hmem e' he' hw, hmem e he rfl]

/-- The set of its last `Event` goes with it. -/
theorem get_outer_of_last (hc : Core s []) (hw : Waits s) (he : e ∈ s.events)
    (hlast : (liveIn s e.outer).length = 1) : (destroy s e).heap.get e.outer = none := by
  cases hg : (destroy s e).heap.get e.outer with
  | none => rfl
  | some set =>
    obtain ⟨fin, hd⟩ := destroy_spec hc hw he
    have hlive := (destroy_core hc he).counted.mem_of_get hg
    obtain ⟨e₁, he₁, hw₁⟩ := mem_outers.mp (by simpa using hlive)
    rw [hd.events] at he₁
    obtain ⟨hne, hmem⟩ := hc.events_nodup.mem_erase_iff.mp he₁
    exact absurd (eq_of_liveIn_one he hmem hw₁ hlast) hne

omit [DecidableEq Tid] in
/-- A condition on the destroyed `Event`. -/
def OnDestroy (P : State Tid → Event → Prop) (s : State Tid) : Act Tid → Prop
  | .destroy id => ∀ e ∈ s.events, e.id = id → P s e
  | _           => True

instance (P : State Tid → Event → Prop) [∀ s e, Decidable (P s e)] (s : State Tid) (a : Act Tid) :
    Decidable (OnDestroy P s a) := by
  cases a <;> unfold OnDestroy <;> infer_instance

/-- Nobody stays behind in the `wait` of the destroyed `Event`: nobody is in it, or the set goes
    with the `Event`. -/
def DestroysIdle (s : State Tid) (a : Act Tid) : Prop :=
  OnDestroy (fun s e => noWaiter s e = true ∨ (liveIn s e.outer).length = 1) s a

instance (s : State Tid) (a : Act Tid) : Decidable (DestroysIdle s a) :=
  inferInstanceAs (Decidable (OnDestroy _ s a))

/-- On the sets that live on nobody is in the `wait` of the destroyed `Event`. -/
theorem waiting_ne_of_idle (hc : Core s []) (hw : Waits s) (he : e ∈ s.events)
    (hidle : noWaiter s e = true ∨ (liveIn s e.outer).length = 1) {w : Nat}
    {set set' : CompactedEventSet Tid} (hg' : (destroy s e).heap.get w = some set')
    (hg : s.heap.get w = some set) :
    ∀ x ∈ set.event.suspendThread, s.waiting x.thread ≠ some e := by
  intro x hx hwait
  obtain ⟨_, rfl, hmask⟩ := hw.mask_of_waiting hg hx hwait
  rcases hidle with hn | hlast
  · exact (noWaiter_iff hg).mp hn x hx hmask
  · rw [get_outer_of_last hc hw he hlast] at hg'
    cases hg'

/-! ### `Waits` along a run -/

omit [DecidableEq Tid] in
theorem Allocated.waits (hw : Waits s) (ha : Allocated s e s') : Waits s' := by
  have hev : ∀ w set', s'.heap.get w = some set' →
      set'.event.suspendThread = [] ∨ ∃ set, s.heap.get w = some set ∧ set'.event = set.event := by
    intro w set' hg'
    by_cases hne : w = e.outer
    · subst hne
      rcases ha.origin with ⟨_, _, _, set, set₁, hg, hg₁, heq⟩ | ⟨_, _, _, set₁, hg₁, heq⟩
      · obtain rfl := Option.some.inj (hg₁.symm.trans hg')
        exact .inr ⟨set, hg, heq⟩
      · obtain rfl := Option.some.inj (hg₁.symm.trans hg')
        exact .inl (by rw [heq]; rfl)
    · exact .inr ⟨set', (ha.frame w hne).symm.trans hg', rfl⟩
  refine ⟨?_, ?_⟩
  · intro w set' hg' x hx
    rcases hev w set' hg' with hnil | ⟨set, hg, heq⟩
    · rw [hnil] at hx; cases hx
    · rw [heq] at hx ⊢
      obtain ⟨e₁, he₁, hrest⟩ := hw.blocked w set hg x hx
      refine ⟨e₁, by rw [ha.events]; exact List.mem_cons_of_mem _ he₁, ?_⟩
      rw [ha.waiting]
      exact hrest
  · intro w set' hg'
    rcases hev w set' hg' with hnil | ⟨set, hg, heq⟩
    · rw [hnil]; exact List.nodup_nil
    · rw [heq]; exact hw.threads_nodup w set hg

theorem destroy_waits (hc : Core s []) (hw : Waits s) (he : e ∈ s.events)
    (hidle : noWaiter s e = true ∨ (liveIn s e.outer).length = 1) : Waits (destroy s e) := by
  obtain ⟨fin, hd⟩ := destroy_spec hc hw he
  refine ⟨?_, ?_⟩
  · intro w set' hg' x hx
    obtain ⟨set, hg, heq⟩ := hd.back w set' hg'
    rw [heq] at hx ⊢
    have hne := waiting_ne_of_idle hc hw he hidle hg' hg x hx
    obtain ⟨e₁, he₁, hout, hon, hclear, hwait⟩ := hw.blocked w set hg x hx
    refine ⟨e₁, ?_, hout, hon, hclear, ?_⟩
    · rw [hd.events]
      refine hc.events_nodup.mem_erase_iff.mpr ⟨?_, he₁⟩
      rintro rfl
      exact hne hwait
    · rw [hd.waiting]
      exact (if_neg fun hmem => hne (hd.woken _ hmem)).trans hwait
  · intro w set' hg'
    obtain ⟨set, hg, heq⟩ := hd.back w set' hg'
    rw [heq]
    exact hw.threads_nodup w set hg

omit [DecidableEq Tid] in
/-- A `KernelOp` keeps `Waits` if the new list of the one set is as it should be and nobody
    else starts or stops waiting. -/
theorem KernelOp.waits {event' : RtEvent Tid} {fin : List (Tid × Bool)} (hw : Waits s)
    (h : KernelOp s e event' fin s') {set : CompactedEventSet Tid}
    (hg : s.heap.get e.outer = some set)
    (hself : ∀ x ∈ event'.suspendThread, ∃ e₁ ∈ s.events, e₁.outer = e.outer ∧
      x.OnBit e₁.bit ∧ bit event'.set e₁.bit = false ∧ s'.waiting x.thread = some e₁)
    (hnodup : (event'.suspendThread.map Waiter.thread).Nodup)
    (hother : ∀ w set, w ≠ e.outer → s.heap.get w = some set → ∀ x ∈ set.event.suspendThread,
      s'.waiting x.thread = s.waiting x.thread) : Waits s' := by
  refine ⟨?_, ?_⟩
  · intro w set' hg' x hx
    rw [h.events]
    by_cases hne : w = e.outer
    · subst hne
      obtain rfl := Option.some.inj ((h.get_self hg).symm.trans hg')
      exact hself x hx
    · rw [h.get_other hne] at hg'
      obtain ⟨e₁, he₁, hout, hon, hclear, hwait₁⟩ := hw.blocked w set' hg' x hx
      exact ⟨e₁, he₁, hout, hon, hclear, (hother w set' hne hg' x hx).trans hwait₁⟩
  · intro w set' hg'
    by_cases hne : w = e.outer
    · subst hne
      obtain rfl := Option.some.inj ((h.get_self hg).symm.trans hg')
      exact hnodup
    · rw [h.get_other hne] at hg'
      exact hw.threads_nodup w set' hg'

theorem setEvent_waits (hc : Core s held) (hw : Waits s) (he : e ∈ s.events)
    (h : setEvent s e = some s') : Waits s' := by
  obtain ⟨set, event', resumed, hg, hsent, hop, hwait⟩ := setEvent_spec hc hw he h
  -- a thread still on some list was not woken
  have hkeep : ∀ t, t ∉ resumed.map Waiter.thread → s'.waiting t = s.waiting t := by
    intro t ht
    rw [hwait]
    exact if_neg ht
  have hnd := hw.threads_nodup e.outer set hg
  have hself : (∀ x ∈ event'.suspendThread, x.thread ∉ resumed.map Waiter.thread) ∧
      (event'.suspendThread.map Waiter.thread).Nodup := by
    cases hsent with
    | mark => exact ⟨by simp, hnd⟩
    | @wake ws₁ ws₂ x hsplit _ _ =>
      rw [hsplit, List.map_append, List.map_cons] at hnd
      obtain ⟨hnot, hrest⟩ := List.nodup_cons.mp (List.nodup_middle.mp hnd)
      rw [← List.map_append] at hnot hrest
      refine ⟨?_, hrest⟩
      intro y hy hmem
      simp only [List.map_cons, List.map_nil, List.mem_singleton] at hmem
      exact hnot (hmem ▸ List.mem_map.mpr ⟨y, hy, rfl⟩)
  refine hop.waits hw hg ?_ hself.2 ?_
  · intro x hx
    obtain ⟨e₁, he₁, hout, hon, _, hwait₁⟩ := hw.blocked e.outer set hg x (hsent.mem hx)
    obtain ⟨b, hb, hclear⟩ := hsent.allBlocked (hw.allBlocked hg) x hx
    have hbit : b = e₁.bit := oneHot_inj.mp (hb.2.symm.trans hon.2)
    rw [hbit] at hclear
    exact ⟨e₁, he₁, hout, hon, hclear, (hkeep _ (hself.1 x hx)).trans hwait₁⟩
  · intro w set₁ hne hg₁ x hx
    apply hkeep
    intro hmem
    obtain ⟨y, hy, hyx⟩ := List.mem_map.mp hmem
    cases hsent with
    | mark => cases hy
    | @wake ws₁ ws₂ z hsplit _ hmask =>
      obtain rfl := List.mem_singleton.mp hy
      have hz : y ∈ set.event.suspendThread := by rw [hsplit]; simp
      have hwy := hw.waiting_of_mask hc he hg hz hmask
      rw [hyx] at hwy
      exact hne (hw.mask_of_waiting hg₁ hx hwy).2.1

theorem waitEvent_waits {t : Tid} {d : Int} (hw : Waits s) (he : e ∈ s.events)
    (ht : s.waiting t = none) (h : waitEvent s t e d = some s') : Waits s' := by
  obtain ⟨set, hg, hop, hwait⟩ := waitEvent_spec h
  -- the caller is on no list, so nobody on a list starts or stops waiting
  have hfree : ∀ w set, s.heap.get w = some set → ∀ x ∈ set.event.suspendThread,
      x.thread ≠ t := by
    intro w set₁ hg₁ x hx hxt
    obtain ⟨e₁, _, _, _, _, hwait₁⟩ := hw.blocked w set₁ hg₁ x hx
    rw [hxt, ht] at hwait₁
    cases hwait₁
  have hkeep : ∀ t', t' ≠ t → s'.waiting t' = s.waiting t' := by
    intro t' hne
    rw [hwait]
    split
    · exact Function.update_of_ne hne _ _
    · rfl
  refine hop.waits hw hg ?_ ?_ fun w set₁ _ hg₁ x hx => hkeep _ (hfree w set₁ hg₁ x hx)
  · intro x hx
    rcases recv_mem hx with hold | ⟨hon, hxt, hclear, hsusp⟩
    · obtain ⟨e₁, he₁, hout, hon, hclear, hwait₁⟩ := hw.blocked e.outer set hg x hold
      exact ⟨e₁, he₁, hout, hon, recv_bit_le _ _ _ _ _ hclear,
        (hkeep _ (hfree _ _ hg x hold)).trans hwait₁⟩
    · refine ⟨e, he, rfl, hon, recv_bit_le _ _ _ _ _ hclear, ?_⟩
      rw [hwait, if_pos hsusp, hxt, Function.update_self]
  · rw [rtEventRecv_oneHot]
    split
    · exact hw.threads_nodup e.outer set hg
    · split
      · exact hw.threads_nodup e.outer set hg
      · rw [List.map_append, List.nodup_append]
        refine ⟨hw.threads_nodup e.outer set hg, by simp, ?_⟩
        rintro a ha b hb rfl
        obtain ⟨x, hx, rfl⟩ := List.mem_map.mp ha
        exact hfree e.outer set hg x hx (by simpa using hb)

theorem timeoutEvent_waits {t : Tid} (hw : Waits s) (ht : s.waiting t = some e)
    (h : timeoutEvent s t e = some s') : Waits s' := by
  obtain ⟨set, event', hg, hto, hop, hwait⟩ := timeoutEvent_spec ht h
  obtain ⟨_, rfl⟩ := rtThreadTimeout_some hto
  refine hop.waits hw hg ?_ ?_ ?_
  · intro x hx
    obtain ⟨hmem, hxt⟩ := List.mem_filter.mp hx
    obtain ⟨e₁, he₁, hout, hon, hclear, hwait₁⟩ := hw.blocked e.outer set hg x hmem
    refine ⟨e₁, he₁, hout, hon, hclear, ?_⟩
    rw [hwait, Function.update_of_ne (by simpa using hxt)]
    exact hwait₁
  · exact (hw.threads_nodup e.outer set hg).sublist (List.filter_sublist.map _)
  · intro w set₁ hne hg₁ x hx
    rw [hwait, Function.update_of_ne]
    rintro rfl
    exact hne (hw.mask_of_waiting hg₁ hx ht).2.1

theorem step_waits {a : Act Tid} (hinv : Inv s) (hw : Waits s) (hok : DestroysIdle s a)
    (hstep : step s a = some s') : Waits s' := by
  cases step_stepped hstep with
  | alloc ha =>
    obtain ⟨hall, _⟩ := alloc_allocated hinv.core ha
    exact hall.waits hw
  | destroy he => exact destroy_waits hinv.core hw he (hok _ he rfl)
  | set he h => exact setEvent_waits hinv.core hw he h
  | wait he ht h => exact waitEvent_waits hw he ht h
  | timeout ht h => exact timeoutEvent_waits hw ht h

/-- Both invariants in every state that a run with idle destructions reaches. -/
theorem runs_waits {as : List (Act Tid)} (h : Runs step DestroysIdle (initial Tid) as s) :
    Inv s ∧ Waits s := by
  refine h.invariant (fun s => Inv s ∧ Waits s) ?_ ⟨initial_inv Tid, initial_waits Tid⟩
  rintro s a s' ⟨hinv, hw⟩ hok hstep
  exact ⟨step_inv hinv hstep, step_waits hinv hw hok hstep⟩

end RtCharger.Os.EventAllocator
