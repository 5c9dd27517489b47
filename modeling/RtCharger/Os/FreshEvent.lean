import RtCharger.Os.EventIsolation

namespace RtCharger.Os.EventAllocator

open Kernel SharedHeap StepSystem OneHot

/-!
# Is a fresh event clear?

`CompactedEventSet::free` gives the bit of a destroyed `Event` back but leaves the kernel
event as it is.  If that bit was set, the next `Event` on the bit starts signalled.

* `fresh_event_stale` — a run in which a wait succeeds on an `Event` that was never set;
* `DestroysClear` — no `Event` is destroyed while signalled or waited for, unless its set goes
  with it;
* `fresh_event_clear` — under this condition every new `Event` is clear, and every wait that
  succeeds is on an `Event` that was set.
-/

variable {Tid : Type} {s s' : State Tid} {held : List Nat} {e e' : Event}

/-- The `Event` is signalled: a wait on it succeeds at once. -/
def signalled (s : State Tid) (e : Event) : Bool := (project s e).flag

theorem signalled_of_get {set : CompactedEventSet Tid} (hg : s.heap.get e.outer = some set) :
    signalled s e = bit set.event.set e.bit := by
  rw [signalled, project_of_get hg]
  rfl

/-- A destruction is of an `Event` that is not signalled and that nobody waits for, or of the
    last one of its set. -/
def DestroysClear (s : State Tid) (a : Act Tid) : Prop :=
  OnDestroy (fun s e => (noWaiter s e = true ∧ signalled s e = false) ∨
    (liveIn s e.outer).length = 1) s a

instance (s : State Tid) (a : Act Tid) : Decidable (DestroysClear s a) :=
  inferInstanceAs (Decidable (OnDestroy _ s a))

/-- A new `Event` is not signalled, and every wait that succeeded in the run `as` was on an
    `Event` that was set in it. -/
def FreshEventsClear (as : List (Act Tid)) (s : State Tid) : Prop :=
  (∀ e s', alloc s = .ok (e, s') → signalled s' e = false) ∧
    ∀ r ∈ s.results, r.ok = true → .set r.event ∈ as

/-- **A stale signal.**  Two `Event`s share a set; the first is set and destroyed, the third
    gets its bit, and thread `7` returns from a wait on it although nobody set it. -/
theorem fresh_event_stale :
    ∃ as s, Runs step anyAction (initial Nat) as s ∧ ¬ FreshEventsClear as s := by
  refine ⟨[.alloc, .alloc, .set 0, .destroy 0, .alloc, .wait 7 2 0], _, runs_get (by rfl), ?_⟩
  intro h
  have hset := h.2 ⟨2, 7, true⟩ (by decide) rfl
  revert hset
  decide

theorem DestroysClear.idle {a : Act Tid} (h : DestroysClear s a) : DestroysIdle s a := by
  cases a with
  | destroy id => exact fun e he hid => (h e he hid).imp_left And.left
  | _ => trivial

/-! ### No stale bit -/

/-- Every pending bit belongs to a live `Event`. -/
def NoStale (s : State Tid) : Prop :=
  ∀ w set, s.heap.get w = some set → ∀ b, bit set.event.set b = true → Taken s w b

theorem Allocated.noStale (hn : NoStale s) (ha : Allocated s e s') : NoStale s' := by
  intro w set' hg' b hb
  have hgrow : Taken s w b → Taken s' w b := by
    rintro ⟨e₁, he₁, hslot⟩
    exact ⟨e₁, by rw [ha.events]; exact List.mem_cons_of_mem _ he₁, hslot⟩
  by_cases hw : w = e.outer
  · subst hw
    -- `alloc` does not touch the kernel event, and a new one has no bit set
    rcases ha.origin with ⟨_, _, _, set, set₁, hg, hg₁, heq⟩ | ⟨_, _, _, set₁, hg₁, heq⟩
    · obtain rfl := Option.some.inj (hg₁.symm.trans hg')
      rw [heq] at hb
      exact hgrow (hn _ set hg b hb)
    · obtain rfl := Option.some.inj (hg₁.symm.trans hg')
      rw [heq] at hb
      simp [rtEventCreate] at hb
  · exact hgrow (hn w set' ((ha.frame w hw).symm.trans hg') b hb)

/-- A new `Event` starts as its bit was left. -/
theorem Allocated.signalled_eq (hn : NoStale s) (ha : Allocated s e s') :
    signalled s' e = false := by
  rcases ha.origin with ⟨_, _, _, set, set', hg, hg', heq⟩ | ⟨_, _, _, set', hg', heq⟩
  · rw [signalled_of_get hg', heq]
    -- a bit that was left set would belong to a live `Event`
    by_contra hb
    exact ha.untaken (hn _ set hg _ (by simpa using hb))
  · rw [signalled_of_get hg', heq]
    simp [rtEventCreate]

variable [DecidableEq Tid]

theorem destroy_noStale (hc : Core s []) (hw : Waits s) (hn : NoStale s) (he : e ∈ s.events)
    (hok : signalled s e = false ∨ (liveIn s e.outer).length = 1) : NoStale (destroy s e) := by
  obtain ⟨fin, hd⟩ := destroy_spec hc hw he
  intro w set' hg' b hb
  obtain ⟨set, hg, heq⟩ := hd.back w set' hg'
  rw [heq] at hb
  obtain ⟨e₁, he₁, hout, hbit⟩ := hn w set hg b hb
  refine ⟨e₁, ?_, hout, hbit⟩
  rw [hd.events]
  refine hc.events_nodup.mem_erase_iff.mpr ⟨?_, he₁⟩
  rintro rfl
  subst hout hbit
  rcases hok with hclear | hlast
  · rw [signalled_of_get hg, hb] at hclear
    cases hclear
  · -- the set of its last `Event` is gone
    rw [get_outer_of_last hc hw he hlast] at hg'
    cases hg'

omit [DecidableEq Tid] in
/-- An operation on `e` that leaves the other bits alone makes no bit stale. -/
theorem KernelOp.noStale {event' : RtEvent Tid} {fin : List (Tid × Bool)} (hn : NoStale s)
    (h : KernelOp s e event' fin s') (he : e ∈ s.events) {set : CompactedEventSet Tid}
    (hg : s.heap.get e.outer = some set)
    (hview : ∀ c rs, c ≠ e.bit → view event' c rs = view set.event c rs) : NoStale s' := by
  intro w set' hg' b hb
  rw [Taken, h.events]
  by_cases hw : w = e.outer
  · subst hw
    obtain rfl := Option.some.inj ((h.get_self hg).symm.trans hg')
    by_cases hbit : b = e.bit
    · exact ⟨e, he, rfl, hbit.symm⟩
    · have hflag := congrArg AutoReset.State.flag (hview b [] hbit)
      exact hn _ set hg b (hflag.symm.trans hb)
  · exact hn w set' ((h.get_other hw).symm.trans hg') b hb

/-- **One action that meets the condition leaves no bit stale.** -/
theorem step_noStale {a : Act Tid} (hinv : Inv s) (hw : Waits s) (hn : NoStale s)
    (ha : DestroysClear s a) (hstep : step s a = some s') : NoStale s' := by
  cases step_stepped hstep with
  | alloc halloc =>
    obtain ⟨hall, _⟩ := alloc_allocated hinv.core halloc
    exact hall.noStale hn
  | destroy he =>
    exact destroy_noStale hinv.core hw hn he ((ha _ he rfl).imp_left And.right)
  | set he h =>
    obtain ⟨set, event', resumed, hg, hsent, hop, _⟩ := setEvent_spec hinv.core hw he h
    exact hop.noStale hn he hg fun c rs hne => hsent.view_other hne rs
  | wait he _ h =>
    obtain ⟨set, hg, hop, _⟩ := waitEvent_spec h
    exact hop.noStale hn he hg fun c rs hne => recv_view_other set.event _ _ hne rs
  | timeout ht h =>
    obtain ⟨set, event', hg, hto, hop, _⟩ := timeoutEvent_spec ht h
    have he := hw.live_of_timeout ht hg hto
    have hmask := hw.mask_of_thread ht hg
    exact hop.noStale hn he hg fun c rs hne => timeout_view_other hto hmask hne rs

/-! ### No success without a set -/

/-- Nothing has signalled the `Event` `id` so far: no wait on it succeeded, and it is clear
    while it lives. -/
structure Quiet (s : State Tid) (id : Nat) : Prop where
  failed : ∀ r ∈ s.results, r.event = id → r.ok = false
  clear : ∀ e ∈ s.events, e.id = id → signalled s e = false

omit [DecidableEq Tid] in
theorem KernelOp.quiet {id : Nat} {event' : RtEvent Tid} {fin : List (Tid × Bool)}
    (hc : Core s held) (hq : Quiet s id) (h : KernelOp s e event' fin s') (he : e ∈ s.events)
    {set : CompactedEventSet Tid} (hg : s.heap.get e.outer = some set)
    (hview : ∀ c rs, c ≠ e.bit → view event' c rs = view set.event c rs)
    (hfin : e.id = id → bit event'.set e.bit = false ∧ ∀ r ∈ fin, r.2 = false) :
    Quiet s' id := by
  refine ⟨?_, ?_⟩
  · intro r hr hid
    rw [h.results] at hr
    rcases List.mem_append.mp hr with hr | hr
    · exact hq.failed r hr hid
    · obtain ⟨f, hf, rfl⟩ := List.mem_map.mp hr
      exact (hfin hid).2 f hf
  · intro e₁ he₁ hid
    rw [h.events] at he₁
    by_cases heq : e₁.id = e.id
    · obtain rfl := hc.eq_of_id he₁ he heq
      rw [signalled, h.project_self hg]
      exact (hfin hid).1
    · have hproj := h.project_other heq (hc.slot_ne he he₁ heq) hg hview
      rw [signalled, hproj]
      exact hq.clear e₁ he₁ hid

/-- An action other than a `set` of the `Event` signals nothing. -/
theorem step_quiet {id : Nat} {a : Act Tid} (hinv : Inv s) (hw : Waits s) (hn : NoStale s)
    (hq : Quiet s id) (ha : a ≠ .set id) (hstep : step s a = some s') : Quiet s' id := by
  cases step_stepped hstep with
  | alloc halloc =>
    obtain ⟨hall, _⟩ := alloc_allocated hinv.core halloc
    refine ⟨by rw [hall.results]; exact hq.failed, ?_⟩
    intro e₂ he₂ hid
    rw [hall.events] at he₂
    rcases List.mem_cons.mp he₂ with rfl | he₂
    · -- the new `Event` itself
      exact hall.signalled_eq hn
    · rw [signalled, hall.project_eq hinv.core he₂]
      exact hq.clear e₂ he₂ hid
  | @destroy e₁ he₁ =>
    obtain ⟨fin, hd⟩ := destroy_spec hinv.core hw he₁
    refine ⟨?_, ?_⟩
    · intro r hr hid
      rw [hd.results] at hr
      rcases List.mem_append.mp hr with hr | hr
      · exact hq.failed r hr hid
      · -- whoever is resumed gets an error
        obtain ⟨t, _, rfl⟩ := List.mem_map.mp hr
        rfl
    · intro e₂ he₂ hid
      rw [hd.events] at he₂
      obtain ⟨hne, hmem⟩ := hinv.core.events_nodup.mem_erase_iff.mp he₂
      have hid' : e₂.id ≠ e₁.id := fun h => hne (hinv.core.eq_of_id hmem he₁ h)
      rw [signalled, destroy_project hinv.core hw he₁ hmem hid']
      exact hq.clear e₂ hmem hid
  | set he h =>
    obtain ⟨set, event', resumed, hg, hsent, hop, _⟩ := setEvent_spec hinv.core hw he h
    refine hop.quiet hinv.core hq he hg (fun c rs hne => hsent.view_other hne rs) ?_
    rintro rfl
    exact absurd rfl ha
  | wait he _ h =>
    obtain ⟨set, hg, hop, _⟩ := waitEvent_spec h
    refine hop.quiet hinv.core hq he hg (fun c rs hne => recv_view_other set.event _ _ hne rs) ?_
    intro hid
    have hclear := hq.clear _ he hid
    rw [signalled_of_get hg] at hclear
    refine ⟨recv_bit_le _ _ _ _ _ hclear, ?_⟩
    rw [rtEventRecv_oneHot, hclear]
    simp only [Bool.false_eq_true, if_false]
    split <;> simp [Recv.finished]
  | timeout ht h =>
    obtain ⟨set, event', hg, hto, hop, _⟩ := timeoutEvent_spec ht h
    have he := hw.live_of_timeout ht hg hto
    have hmask := hw.mask_of_thread ht hg
    refine hop.quiet hinv.core hq he hg (fun c rs hne => timeout_view_other hto hmask hne rs) ?_
    intro hid
    have hclear := hq.clear _ he hid
    rw [signalled_of_get hg] at hclear
    obtain ⟨_, rfl⟩ := rtThreadTimeout_some hto
    exact ⟨hclear, by simp⟩

/-- What holds along a run all of whose destructions meet the condition. -/
theorem runs_noStale {as : List (Act Tid)} (h : Runs step DestroysClear (initial Tid) as s) :
    NoStale s ∧ ∀ id, Act.set id ∉ as → Quiet s id := by
  induction h with
  | nil => exact ⟨by simp [NoStale, initial], fun id _ => ⟨by simp [initial], by simp [initial]⟩⟩
  | @snoc as s s' a hrun hok hstep ih =>
    obtain ⟨hinv, hw⟩ := runs_waits (hrun.mono fun _ _ => DestroysClear.idle)
    refine ⟨step_noStale hinv hw ih.1 hok hstep, ?_⟩
    intro id hid
    rw [List.mem_append, List.mem_singleton, not_or] at hid
    exact step_quiet hinv hw ih.1 (ih.2 id hid.1) (Ne.symm hid.2) hstep

/-- **A fresh `Event` is clear**, as long as no `Event` is destroyed while it is signalled or
    waited for (unless its set goes with it): what `alloc` returns is not signalled, and a wait succeeds only on an
    `Event` that was set. -/
theorem fresh_event_clear {as : List (Act Tid)}
    (h : Runs step DestroysClear (initial Tid) as s) : FreshEventsClear as s := by
  have hinv := runs_inv h
  obtain ⟨hn, hquiet⟩ := runs_noStale h
  refine ⟨?_, ?_⟩
  · intro e s' ha
    obtain ⟨hall, _⟩ := alloc_allocated hinv.core ha
    exact hall.signalled_eq hn
  · intro r hr hok
    by_contra hset
    have hfail := (hquiet r.event hset).failed r hr rfl
    rw [hok] at hfail
    cases hfail

/-- A bit is reused, but it was consumed before: the new `Event` is clear. -/
theorem fresh_event_clear_reused : ∃ s, Runs step DestroysClear (initial Nat)
      [.alloc, .alloc, .set 0, .wait 7 0 0, .destroy 0, .alloc, .set 2, .wait 7 2 0] s ∧
    FreshEventsClear
      [.alloc, .alloc, .set 0, .wait 7 0 0, .destroy 0, .alloc, .set 2, .wait 7 2 0] s :=
  ⟨_, runs_checked_get (by decide), fresh_event_clear (runs_checked_get (by decide))⟩

end RtCharger.Os.EventAllocator
