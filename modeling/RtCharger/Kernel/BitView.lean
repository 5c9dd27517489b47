import RtCharger.Kernel.Event
import RtCharger.Lib.AutoReset

namespace RtCharger.Kernel

open OneHot

/-!
# One bit of a kernel event as an auto-reset event

While every suspended thread waits for one bit that is not set (`AllBlocked`), each bit of a
kernel event with its waiters is an auto-reset event of its own:

* `view` — the flag and the waiters of one bit;
* `SentBit.view_self`, `recv_view_self`, `timeout_view_self` — an operation on bit `b` is the
  operation of the auto-reset event on the view of `b`;
* `SentBit.view_other`, `recv_view_other`, `timeout_view_other` — and leaves the view of every
  other bit alone;
* `SentBit.allBlocked` — `AllBlocked` lasts when the bit is sent.
-/

variable {Tid : Type}

/-- The threads suspended for bit `b`, in their order, with their timers. -/
def waitersOf (event : RtEvent Tid) (b : Fin 32) : List (Tid × Bool) :=
  (event.suspendThread.filter fun w => decide (w.eventSet = oneHot b)).map
    fun w => (w.thread, w.timer)

/-- Bit `b` and its waiters, with the finished waits of its users. -/
def view (event : RtEvent Tid) (b : Fin 32) (results : List (Tid × Bool)) :
    AutoReset.State Tid :=
  ⟨bit event.set b, waitersOf event b, results⟩

/-- The wait that `rt_event_recv` finishes at once. -/
def Recv.finished (t : Tid) : Recv → List (Tid × Bool)
  | .received _ => [(t, true)]
  | .failed _   => [(t, false)]
  | _           => []

variable {event event' : RtEvent Tid} {b c : Fin 32}

theorem waitersOf_eq_nil (h : ∀ x ∈ event.suspendThread, x.eventSet ≠ oneHot b) :
    waitersOf event b = [] := by
  rw [waitersOf, List.map_eq_nil_iff, List.filter_eq_nil_iff]
  intro x hx
  simpa using h x hx

/-! ### Sending -/

/-- A send of bit `b` is the `set` of its view. -/
theorem SentBit.view_self {resumed : List (Waiter Tid)} (h : SentBit event b event' resumed)
    (rs : List (Tid × Bool)) :
    AutoReset.set (view event b rs)
      = view event' b (rs ++ resumed.map fun w => (w.thread, true)) := by
  cases h with
  | mark hnone =>
    have hw := waitersOf_eq_nil hnone
    have hw' : waitersOf ⟨event.set ||| oneHot b, event.suspendThread⟩ b = [] :=
      waitersOf_eq_nil hnone
    simp only [AutoReset.set, view, hw, hw']
    simp
  | @wake ws₁ ws₂ w hsplit hbefore hw =>
    have hnil : ws₁.filter (fun x => decide (x.eventSet = oneHot b)) = [] := by
      rw [List.filter_eq_nil_iff]
      intro x hx
      simpa using hbefore x hx
    have hold : waitersOf event b
        = (w.thread, w.timer) :: waitersOf ⟨event.set, ws₁ ++ ws₂⟩ b := by
      simp [waitersOf, hsplit, hnil, hw]
    simp [AutoReset.set, view, hold]

/-- A send of bit `b` leaves every other bit alone. -/
theorem SentBit.view_other {resumed : List (Waiter Tid)} (h : SentBit event b event' resumed)
    (hne : c ≠ b) (rs : List (Tid × Bool)) : view event' c rs = view event c rs := by
  cases h with
  | mark => simp [view, waitersOf, hne]
  | @wake ws₁ ws₂ w hsplit _ hw =>
    have hmask : w.eventSet ≠ oneHot c := by
      rw [hw, Ne, oneHot_inj]; exact Ne.symm hne
    simp [view, waitersOf, hsplit, hmask]

theorem SentBit.mem {resumed : List (Waiter Tid)} (h : SentBit event b event' resumed)
    {x : Waiter Tid} (hx : x ∈ event'.suspendThread) : x ∈ event.suspendThread := by
  cases h with
  | mark => exact hx
  | wake hsplit =>
    rw [hsplit]
    rcases List.mem_append.mp hx with hx | hx
    · exact List.mem_append_left _ hx
    · exact List.mem_append_right _ (List.mem_cons_of_mem _ hx)

theorem SentBit.allBlocked {resumed : List (Waiter Tid)} (h : SentBit event b event' resumed)
    (hall : AllBlocked event.set event.suspendThread) :
    AllBlocked event'.set event'.suspendThread := by
  intro x hx
  obtain ⟨d, hd, hclear⟩ := hall x (h.mem hx)
  refine ⟨d, hd, ?_⟩
  cases h with
  | mark hnone =>
    have hdb : d ≠ b := by
      rintro rfl
      exact hnone x hx hd.2
    simp [hclear, hdb]
  | wake => exact hclear

/-! ### Receiving -/

/-- A wait for bit `b` is the `wait` of its view. -/
theorem recv_view_self (event : RtEvent Tid) (t : Tid) (b : Fin 32) (d : Int)
    (rs : List (Tid × Bool)) :
    AutoReset.wait (view event b rs) t d
      = view (rtEventRecv event t (oneHot b) andClear d).2 b
          (rs ++ (rtEventRecv event t (oneHot b) andClear d).1.finished t) := by
  rw [rtEventRecv_oneHot]
  by_cases hb : bit event.set b = true
  · simp [AutoReset.wait, view, waitersOf, Recv.finished, hb]
  · by_cases hd : d = 0
    · simp [AutoReset.wait, view, waitersOf, Recv.finished, hb, hd]
    · simp [AutoReset.wait, view, waitersOf, Recv.finished, hb, hd]

/-- A wait for bit `b` leaves every other bit alone. -/
theorem recv_view_other (event : RtEvent Tid) (t : Tid) (d : Int) (hne : c ≠ b)
    (rs : List (Tid × Bool)) :
    view (rtEventRecv event t (oneHot b) andClear d).2 c rs = view event c rs := by
  have hmask : oneHot b ≠ oneHot c := by
    rw [Ne, oneHot_inj]; exact Ne.symm hne
  rw [rtEventRecv_oneHot]
  split
  · simp [view, waitersOf, hne]
  · split
    · rfl
    · simp [view, waitersOf, hmask]

/-- The threads on the list after a wait are those before and perhaps the caller, for bit `b`,
    which is then not set. -/
theorem recv_mem {t : Tid} {d : Int} {x : Waiter Tid}
    (hx : x ∈ (rtEventRecv event t (oneHot b) andClear d).2.suspendThread) :
    x ∈ event.suspendThread ∨ (x.OnBit b ∧ x.thread = t ∧ bit event.set b = false ∧
      (rtEventRecv event t (oneHot b) andClear d).1 = .suspended) := by
  rw [rtEventRecv_oneHot] at hx ⊢
  by_cases hb : bit event.set b = true
  · rw [if_pos hb] at hx
    exact .inl hx
  · rw [if_neg hb] at hx ⊢
    by_cases hd : d = 0
    · rw [if_pos hd] at hx
      exact .inl hx
    · rw [if_neg hd] at hx ⊢
      rcases List.mem_append.mp hx with hx | hx
      · exact .inl hx
      · rw [List.mem_singleton.mp hx]
        exact .inr ⟨⟨rfl, rfl⟩, rfl, by simpa using hb, rfl⟩

/-- A wait only takes bits away. -/
theorem recv_bit_le (event : RtEvent Tid) (t : Tid) (b c : Fin 32) (d : Int)
    (h : bit event.set c = false) :
    bit (rtEventRecv event t (oneHot b) andClear d).2.set c = false := by
  rw [rtEventRecv_oneHot]
  split
  · simp [h]
  · split <;> exact h

/-! ### Timing out -/

variable [DecidableEq Tid]

theorem rtThreadTimeout_some {t : Tid} (h : rtThreadTimeout event t = some event') :
    (∃ x ∈ event.suspendThread, x.thread = t ∧ x.timer = true) ∧
      event' = { event with suspendThread :=
                   event.suspendThread.filter fun w => decide (w.thread ≠ t) } := by
  rw [rtThreadTimeout, Option.ite_none_right_eq_some, List.any_eq_true] at h
  obtain ⟨⟨x, hx, hp⟩, heq⟩ := h
  refine ⟨⟨x, hx, ?_⟩, (Option.some.inj heq).symm⟩
  simpa using hp

/-- The time-out of a thread that waits for bit `b` only is the `timeout` of the view. -/
theorem timeout_view_self {t : Tid} (h : rtThreadTimeout event t = some event')
    (ht : ∀ x ∈ event.suspendThread, x.thread = t → x.eventSet = oneHot b)
    (rs : List (Tid × Bool)) :
    AutoReset.timeout (view event b rs) t = some (view event' b (rs ++ [(t, false)])) := by
  obtain ⟨⟨x, hx, hxt, htimer⟩, rfl⟩ := rtThreadTimeout_some h
  have hany : (waitersOf event b).any (fun w => decide (w.1 = t) && w.2) = true := by
    rw [List.any_eq_true]
    refine ⟨(x.thread, x.timer), ?_, by simp [hxt, htimer]⟩
    exact List.mem_map.mpr ⟨x, List.mem_filter.mpr ⟨hx, by simpa using ht x hx hxt⟩, rfl⟩
  simp only [AutoReset.timeout, view, hany, if_true, Option.some.injEq, AutoReset.State.mk.injEq,
    true_and, and_true]
  simp only [waitersOf, List.filter_map, List.filter_filter]
  congr 1
  apply List.filter_congr
  intro y _
  simp [Bool.and_comm]

/-- The time-out of a thread that waits for bit `b` only leaves every other bit alone. -/
theorem timeout_view_other {t : Tid} (h : rtThreadTimeout event t = some event')
    (ht : ∀ x ∈ event.suspendThread, x.thread = t → x.eventSet = oneHot b) (hne : c ≠ b)
    (rs : List (Tid × Bool)) : view event' c rs = view event c rs := by
  obtain ⟨_, rfl⟩ := rtThreadTimeout_some h
  simp only [view, waitersOf, List.filter_filter]
  congr 2
  apply List.filter_congr
  intro y hy
  by_cases hyt : y.thread = t
  · have hmask : y.eventSet ≠ oneHot c := by
      rw [ht y hy hyt, Ne, oneHot_inj]; exact Ne.symm hne
    simp [hmask]
  · simp [hyt]

end RtCharger.Kernel
