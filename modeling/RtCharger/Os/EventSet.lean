import RtCharger.Lib.Effect
import RtCharger.Kernel.BitView

namespace RtCharger.Os

open Effect OneHot RtCharger.Kernel

/-!
# Event sets

`EventSet` of `event_set.hxx`: one kernel event, whose bits are set from any thread and waited
for with `AND | CLEAR`.

* `set`, `waitAll` — the functions of the source;
* `waitAll_eq` — what a wait for one bit does;
* `set_unsuspended`, `set_suspended` — what setting one bit does to nobody, and to a thread that
  is suspended alone.
-/

/-- The kernel event, and what happened to it: the masks that were set, and the threads this
    resumed. -/
structure EventSet (Tid : Type) where
  object : RtEvent Tid
  raised : List (BitVec 32)
  resumed : List Tid

namespace EventSet

variable {Tid : Type}

/-- A new event set. -/
def new (Tid : Type) : EventSet Tid := ⟨rtEventCreate Tid, [], []⟩

/-- `EventSet::set`; the status of `rt_event_send` is not looked at. -/
def set (es : EventSet Tid) (e : BitVec 32) : EventSet Tid :=
  let sent := rtEventSend es.object e
  ⟨sent.2.1, es.raised ++ [e], es.resumed ++ sent.2.2.map Waiter.thread⟩

/-- `EventSet::waitAll` of the thread `t`, as far as it runs without giving up the processor. -/
def waitAll (es : EventSet Tid) (t : Tid) (e : BitVec 32) (timeout : Int) :
    Recv × EventSet Tid :=
  let recv := rtEventRecv es.object t e andClear timeout
  (recv.1, { es with object := recv.2 })

/-- The bit `b` is set. -/
def isSet (es : EventSet Tid) (b : Fin 32) : Bool := bit es.object.set b

/-- The bit `b` is taken. -/
def take (es : EventSet Tid) (b : Fin 32) : EventSet Tid :=
  { es with object := { es.object with set := es.object.set &&& ~~~oneHot b } }

/-- The thread `t` is suspended for the bit `b`. -/
def suspend (es : EventSet Tid) (t : Tid) (b : Fin 32) : EventSet Tid :=
  { es with object := { es.object with
      suspendThread := es.object.suspendThread ++ [⟨t, oneHot b, andClear, true⟩] } }

/-- **A wait for one bit.**  It takes the bit if it is set, and suspends the caller
    otherwise. -/
theorem waitAll_eq (es : EventSet Tid) (t : Tid) (b : Fin 32) {timeout : Int}
    (ht : 0 < timeout) : es.waitAll t (oneHot b) timeout =
      if es.isSet b then (.received (es.object.set &&& oneHot b), es.take b)
      else (.suspended, es.suspend t b) := by
  have hne : timeout ≠ 0 := by omega
  rw [waitAll, rtEventRecv_oneHot, isSet]
  by_cases hbit : bit es.object.set b = true
  · simp only [hbit, if_true]
    rfl
  · simp only [hbit, Bool.false_eq_true, if_false, hne, ht, decide_true]
    rfl

/-- While nobody is suspended, the bit is set. -/
theorem set_unsuspended {es : EventSet Tid} (h : es.object.suspendThread = []) (b : Fin 32) :
    (es.set (oneHot b)).object.suspendThread = [] ∧ (es.set (oneHot b)).isSet b = true := by
  have hblocked : AllBlocked es.object.set es.object.suspendThread := by
    rw [h]
    exact fun w hw => nomatch hw
  obtain ⟨event', resumed, hsend, hsent⟩ := rtEventSend_oneHot b hblocked
  have hobject : (es.set (oneHot b)).object = event' := by rw [set, hsend]
  rw [isSet, hobject]
  cases hsent with
  | mark _ => exact ⟨h, by simp⟩
  | wake hsplit _ _ =>
    rw [h] at hsplit
    simp at hsplit

/-- A thread that is suspended alone, for the bit, is resumed. -/
theorem set_suspended {es : EventSet Tid} {t : Tid} {b : Fin 32}
    (h : es.object.suspendThread = [⟨t, oneHot b, andClear, true⟩]) (hclear : es.isSet b = false) :
    (es.set (oneHot b)).object.suspendThread = [] ∧
      (es.set (oneHot b)).resumed = es.resumed ++ [t] ∧ (es.set (oneHot b)).isSet b = false := by
  have hblocked : AllBlocked es.object.set es.object.suspendThread := by
    intro w hw
    rw [h, List.mem_singleton] at hw
    subst hw
    exact ⟨b, ⟨rfl, rfl⟩, hclear⟩
  obtain ⟨event', resumed, hsend, hsent⟩ := rtEventSend_oneHot b hblocked
  have hobject : (es.set (oneHot b)).object = event' := by rw [set, hsend]
  have hresumed : (es.set (oneHot b)).resumed = es.resumed ++ resumed.map Waiter.thread := by
    rw [set, hsend]
  rw [isSet, hobject, hresumed]
  cases hsent with
  | mark hnone => exact absurd rfl (hnone _ (by rw [h]; exact List.mem_cons_self))
  | @wake ws₁ ws₂ w hsplit _ _ =>
    rw [h] at hsplit
    cases ws₁ with
    | nil =>
      cases hsplit
      exact ⟨rfl, rfl, hclear⟩
    | cons _ ws₁ => simp at hsplit

end EventSet

end RtCharger.Os
