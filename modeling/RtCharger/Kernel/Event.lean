import RtCharger.Lib.OneHot
import Mathlib.Data.List.Basic

namespace RtCharger.Kernel

open OneHot

/-!
# The kernel's event object

`rt_event_send` and `rt_event_recv` of `ipc.c`, for an event made with `RT_IPC_FLAG_FIFO`
(the suspended threads are kept in the order of their arrival), and the part of
`rt_thread_timeout` that takes a thread off the list.

* `sendLoop` — the walk over the suspended threads, which clears bits while it goes;
* `rtEventSend_oneHot` — what a send of one bit does when every suspended thread waits, with
  `AND | CLEAR`, for one bit that is not set: it wakes the first thread waiting for that bit,
  or sets the bit if there is none.
-/

/-- The status codes of the kernel calls. -/
inductive RtErr where
  | ok
  | error
  | timeout
  | full
  | inval
deriving DecidableEq, Repr

/-- `RT_EVENT_FLAG_AND`. -/
def rtEventFlagAnd : BitVec 8 := 0x01#8

/-- `RT_EVENT_FLAG_OR`. -/
def rtEventFlagOr : BitVec 8 := 0x02#8

/-- `RT_EVENT_FLAG_CLEAR`. -/
def rtEventFlagClear : BitVec 8 := 0x04#8

/-- `RT_WAITING_FOREVER`. -/
def rtWaitingForever : Int := -1

/-- The test `option & flag` of a flag byte. -/
def hasFlag (option flag : BitVec 8) : Bool := option &&& flag != 0#8

/-- A suspended thread, as `rt_event_recv` leaves it: what it waits for and whether its
    thread timer was started. -/
structure Waiter (Tid : Type) where
  thread : Tid
  eventSet : BitVec 32
  eventInfo : BitVec 8
  timer : Bool
deriving DecidableEq, Repr

/-- `struct rt_event`: the event set and the list of suspended threads. -/
structure RtEvent (Tid : Type) where
  set : BitVec 32
  suspendThread : List (Waiter Tid)
deriving DecidableEq, Repr

/-- `rt_event_create`. -/
def rtEventCreate (Tid : Type) : RtEvent Tid := ⟨0#32, []⟩

variable {Tid : Type}

/-! ### `rt_event_send` -/

/-- The part of the set a suspended thread receives: `some none` while its condition does not
    hold, `none` when it carries neither `AND` nor `OR`. -/
def receives (set : BitVec 32) (w : Waiter Tid) : Option (Option (BitVec 32)) :=
  if hasFlag w.eventInfo rtEventFlagAnd then
    some (if w.eventSet &&& set = w.eventSet then some w.eventSet else none)
  else if hasFlag w.eventInfo rtEventFlagOr then
    some (if w.eventSet &&& set ≠ 0#32 then some (w.eventSet &&& set) else none)
  else none

/-- The outcome of the walk of `rt_event_send`. -/
structure Sent (Tid : Type) where
  status : RtErr
  set : BitVec 32
  suspended : List (Waiter Tid)
  resumed : List (Waiter Tid)
deriving DecidableEq, Repr

/-- The walk of `rt_event_send` over the suspended threads. -/
def sendLoop (set : BitVec 32) : List (Waiter Tid) → Sent Tid
  | [] => ⟨.ok, set, [], []⟩
  | w :: ws =>
    match receives set w with
    -- `return -RT_EINVAL` in the middle of the walk: the bits cleared so far stay cleared
    | none => ⟨.inval, set, w :: ws, []⟩
    | some none =>
      let r := sendLoop set ws
      { r with suspended := w :: r.suspended }
    | some (some received) =>
      -- the rest of the walk sees the set without the bits this thread takes
      let set' := if hasFlag w.eventInfo rtEventFlagClear then set &&& ~~~received else set
      let r := sendLoop set' ws
      { r with resumed := { w with eventSet := received } :: r.resumed }

/-- `rt_event_send`: the status, the event afterwards and the threads it resumes, in order. -/
def rtEventSend (event : RtEvent Tid) (set : BitVec 32) :
    RtErr × RtEvent Tid × List (Waiter Tid) :=
  if set = 0#32 then (.error, event, [])
  else
    let r := sendLoop (event.set ||| set) event.suspendThread
    (r.status, ⟨r.set, r.suspended⟩, r.resumed)

/-! ### `rt_event_recv` -/

/-- The outcome of `rt_event_recv`, as far as it runs without giving up the processor. -/
inductive Recv where
  /-- The condition holds; what the caller gets in `*recved`. -/
  | received (recved : BitVec 32)
  | failed (err : RtErr)
  /-- The thread is on the list of the event. -/
  | suspended
  /-- `RT_ASSERT(0)`: neither `AND` nor `OR` was asked for. -/
  | assertFailed
deriving DecidableEq, Repr

/-- `rt_event_recv` of the thread `self`. -/
def rtEventRecv (event : RtEvent Tid) (self : Tid) (set : BitVec 32) (option : BitVec 8)
    (timeout : Int) : Recv × RtEvent Tid :=
  if set = 0#32 then (.failed .error, event)
  else
    match receives event.set ⟨self, set, option, false⟩ with
    | none => (.assertFailed, event)
    | some (some _) =>
      (.received (event.set &&& set),
        { event with set := if hasFlag option rtEventFlagClear then event.set &&& ~~~set
                            else event.set })
    | some none =>
      if timeout = 0 then (.failed .timeout, event)
      else
        -- a negative time-out is `RT_WAITING_FOREVER`: no timer is started
        (.suspended,
          { event with suspendThread :=
              event.suspendThread ++ [⟨self, set, option, decide (0 < timeout)⟩] })

/-- The timer of a suspended thread runs out (`rt_thread_timeout`): the thread leaves the
    list.  Not enabled for a thread that is not on the list or has no running timer. -/
def rtThreadTimeout [DecidableEq Tid] (event : RtEvent Tid) (t : Tid) : Option (RtEvent Tid) :=
  if event.suspendThread.any (fun w => decide (w.thread = t) && w.timer) then
    some { event with suspendThread :=
             event.suspendThread.filter (fun w => decide (w.thread ≠ t)) }
  else none

/-! ### Threads that wait for one bit -/

/-- The options of a wait for all bits that takes the bits it got. -/
def andClear : BitVec 8 := rtEventFlagAnd ||| rtEventFlagClear

/-- The thread waits, with `AND | CLEAR`, for the single bit `b`. -/
def Waiter.OnBit (w : Waiter Tid) (b : Fin 32) : Prop :=
  w.eventInfo = andClear ∧ w.eventSet = oneHot b

/-- Every suspended thread waits for one bit, and that bit is not set. -/
def AllBlocked (set : BitVec 32) (ws : List (Waiter Tid)) : Prop :=
  ∀ w ∈ ws, ∃ b, w.OnBit b ∧ bit set b = false

theorem receives_onBit {w : Waiter Tid} {b : Fin 32} (h : w.OnBit b) (set : BitVec 32) :
    receives set w = some (if bit set b then some (oneHot b) else none) := by
  have hand : hasFlag w.eventInfo rtEventFlagAnd = true := by rw [h.1]; decide
  rw [receives, if_pos hand, h.2]
  by_cases hb : bit set b = true
  · rw [if_pos ((and_oneHot_eq_iff set b).mpr hb), if_pos hb]
  · rw [if_neg (fun hx => hb ((and_oneHot_eq_iff set b).mp hx)), if_neg hb]

/-- A walk that meets no thread whose bit is set wakes nobody. -/
theorem sendLoop_of_allBlocked {set : BitVec 32} {ws : List (Waiter Tid)}
    (h : AllBlocked set ws) : sendLoop set ws = ⟨.ok, set, ws, []⟩ := by
  induction ws with
  | nil => rfl
  | cons w ws ih =>
    obtain ⟨b, hb, hclear⟩ := h w (by simp)
    have hrest : AllBlocked set ws := fun x hx => h x (by simp [hx])
    simp only [sendLoop, receives_onBit hb, hclear, Bool.false_eq_true, if_false, ih hrest]

/-- The walk after bit `b` was set: the first thread waiting for `b` takes the bit with it,
    everyone else stays suspended; if nobody waits for `b`, the bit stays set. -/
theorem sendLoop_oneHot {set : BitVec 32} {ws : List (Waiter Tid)} (b : Fin 32)
    (h : AllBlocked set ws) :
    ((∀ x ∈ ws, x.eventSet ≠ oneHot b) ∧
      sendLoop (set ||| oneHot b) ws = ⟨.ok, set ||| oneHot b, ws, []⟩) ∨
    ∃ ws₁ w ws₂, ws = ws₁ ++ w :: ws₂ ∧ (∀ x ∈ ws₁, x.eventSet ≠ oneHot b) ∧
      w.eventSet = oneHot b ∧
      sendLoop (set ||| oneHot b) ws = ⟨.ok, set, ws₁ ++ ws₂, [w]⟩ := by
  induction ws with
  | nil => exact .inl ⟨by simp, rfl⟩
  | cons w ws ih =>
    obtain ⟨c, hc, hclear⟩ := h w (by simp)
    have hrest : AllBlocked set ws := fun x hx => h x (by simp [hx])
    by_cases hcb : c = b
    · -- the first thread waiting for `b`: the walk goes on with the bit cleared again
      subst hcb
      have hclr : hasFlag w.eventInfo rtEventFlagClear = true := by rw [hc.1]; decide
      have hbit : bit (set ||| oneHot c) c = true := by simp
      have hw : ({ w with eventSet := oneHot c } : Waiter Tid) = w := by rw [← hc.2]
      refine .inr ⟨[], w, ws, rfl, by simp, hc.2, ?_⟩
      simp only [sendLoop, receives_onBit hc, hbit, if_true, hclr, or_and_not_oneHot hclear,
        sendLoop_of_allBlocked hrest, hw, List.nil_append]
    · -- a thread that waits for another bit, which is clear and stays clear: it is passed over
      have hne : w.eventSet ≠ oneHot b := by
        rw [hc.2, Ne, oneHot_inj]; exact hcb
      have hbit : bit (set ||| oneHot b) c = false := by simp [hclear, hcb]
      rcases ih hrest with ⟨hnone, hloop⟩ | ⟨ws₁, x, ws₂, rfl, hbefore, hx, hloop⟩
      · refine .inl ⟨List.forall_mem_cons.mpr ⟨hne, hnone⟩, ?_⟩
        simp only [sendLoop, receives_onBit hc, hbit, Bool.false_eq_true, if_false, hloop]
      · refine .inr ⟨w :: ws₁, x, ws₂, rfl, List.forall_mem_cons.mpr ⟨hne, hbefore⟩, hx, ?_⟩
        simp only [sendLoop, receives_onBit hc, hbit, Bool.false_eq_true, if_false, hloop,
          List.cons_append]

/-- What a send of one bit does: `mark` the bit, or `wake` the first thread waiting for it. -/
inductive SentBit (event : RtEvent Tid) (b : Fin 32) : RtEvent Tid → List (Waiter Tid) → Prop
  | mark (hnone : ∀ x ∈ event.suspendThread, x.eventSet ≠ oneHot b) :
      SentBit event b { event with set := event.set ||| oneHot b } []
  | wake {ws₁ ws₂ : List (Waiter Tid)} {w : Waiter Tid}
      (hsplit : event.suspendThread = ws₁ ++ w :: ws₂)
      (hbefore : ∀ x ∈ ws₁, x.eventSet ≠ oneHot b) (hw : w.eventSet = oneHot b) :
      SentBit event b { event with suspendThread := ws₁ ++ ws₂ } [w]

/-- **A send of one bit.**  While every suspended thread waits for one bit that is not set,
    `rt_event_send` of bit `b` succeeds and wakes the first thread waiting for `b`, or sets
    the bit if there is none. -/
theorem rtEventSend_oneHot {event : RtEvent Tid} (b : Fin 32)
    (h : AllBlocked event.set event.suspendThread) :
    ∃ event' resumed, rtEventSend event (oneHot b) = (.ok, event', resumed) ∧
      SentBit event b event' resumed := by
  rw [rtEventSend, if_neg (oneHot_ne_zero b)]
  rcases sendLoop_oneHot b h with ⟨hnone, hloop⟩ | ⟨ws₁, w, ws₂, hsplit, hbefore, hw, hloop⟩
  · exact ⟨_, _, by rw [hloop], .mark hnone⟩
  · exact ⟨_, _, by rw [hloop], .wake hsplit hbefore hw⟩

/-- **A wait for one bit.**  It takes the bit if it is set; otherwise it times out at once or
    joins the end of the list. -/
theorem rtEventRecv_oneHot (event : RtEvent Tid) (self : Tid) (b : Fin 32) (timeout : Int) :
    rtEventRecv event self (oneHot b) andClear timeout =
      if bit event.set b then
        (.received (event.set &&& oneHot b), { event with set := event.set &&& ~~~oneHot b })
      else if timeout = 0 then (.failed .timeout, event)
      else
        (.suspended,
          { event with suspendThread :=
              event.suspendThread ++ [⟨self, oneHot b, andClear, decide (0 < timeout)⟩] }) := by
  have hw : (⟨self, oneHot b, andClear, false⟩ : Waiter Tid).OnBit b := ⟨rfl, rfl⟩
  rw [rtEventRecv, if_neg (oneHot_ne_zero b), receives_onBit hw]
  by_cases hb : bit event.set b = true
  · have hclr : hasFlag andClear rtEventFlagClear = true := by decide
    simp only [hb, if_true, hclr]
  · simp only [hb, Bool.false_eq_true, if_false]

end RtCharger.Kernel
