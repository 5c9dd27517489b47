import RtCharger.Lib.SharedHeap
import RtCharger.Lib.StepSystem
import RtCharger.Os.CompactedEventSet

namespace RtCharger.Os.EventAllocator

open Kernel SharedHeap

/-!
# `EventAllocator` and `Event`

The program's events (`event_allocator.cxx`, `event.cxx`): a registry of weak references to
the `CompactedEventSet`s, and the live `Event`s, each of which owns its set and holds one bit
of it.

* `alloc`, `dispose` — `EventAllocator::alloc` and `EventAllocator::dispose`;
* `resetBit`, `free`, `releaseOuter`, `destroy` — the destructor `Event::~Event`, whole and in
  the pieces it runs in;
* `setEvent`, `waitEvent`, `timeoutEvent` — `Event::set` and `Event::wait`;
* `step` — one operation of the program on its events.
-/

/-- A live `Event`: the set it owns and its bit.  `id` tells the `Event` objects of a run
    apart. -/
structure Event where
  id : Nat
  outer : Nat
  bit : Fin 32
deriving DecidableEq, Repr

/-- A finished `Event::wait`: on which `Event`, by which thread, and whether it returned
    (`true`) or threw `event timeout`. -/
structure WaitResult (Tid : Type) where
  event : Nat
  thread : Tid
  ok : Bool
deriving DecidableEq, Repr

/-- The state of the allocator and its clients. -/
structure State (Tid : Type) where
  /-- The `CompactedEventSet`s, owned by `shared_ptr`s. -/
  heap : Heap (CompactedEventSet Tid)
  /-- `EventAllocator::eventSets`, a list of `weak_ptr`s. -/
  eventSets : List Nat
  /-- The live `Event`s. -/
  events : List Event
  nextEvent : Nat
  /-- The `Event` in whose `wait` a thread is suspended. -/
  waiting : Tid → Option Event
  /-- The waits that have finished, in order. -/
  results : List (WaitResult Tid)

/-- Before the first `alloc`. -/
def initial (Tid : Type) : State Tid :=
  ⟨SharedHeap.empty, [], [], 0, fun _ => none, []⟩

variable {Tid : Type}

/-! ### `EventAllocator::alloc` -/

/-- The first loop of `alloc`: the first listed set that can be locked and is not full. -/
def available (s : State Tid) : Option Nat :=
  s.eventSets.find? fun w =>
    match s.heap.get w with
    | some set => !set.full
    | none     => false  -- `if(!locked) continue`

/-- The local `avaliableEventSet`: the set found, locked, or a new one, which is listed. -/
def pick (s : State Tid) : Nat × State Tid :=
  match available s with
  | some w => (w, { s with heap := s.heap.acquire w })
  | none   =>
    (s.heap.next, { s with heap := s.heap.make (CompactedEventSet.new Tid)
                           eventSets := s.eventSets ++ [s.heap.next] })

/-- `avaliableEventSet->alloc()`: the new `Event` owns the set. -/
def allocIn (s : State Tid) (w : Nat) : Except String (Event × State Tid) :=
  match s.heap.get w with
  | none     => .error "expired"
  | some set =>
    match set.alloc with
    | .error msg   => .error msg
    | .ok (b, set') =>
      let e : Event := ⟨s.nextEvent, w, b⟩
      -- `shared_from_this()`: the `Event` is one more owner
      .ok (e, { s with heap := (s.heap.modify w fun _ => set').acquire w
                       events := e :: s.events
                       nextEvent := s.nextEvent + 1 })

/-- `EventAllocator::alloc`, under the scheduler lock. -/
def alloc (s : State Tid) : Except String (Event × State Tid) :=
  let (w, s₁) := pick s
  match allocIn s₁ w with
  | .error msg  => .error msg
  -- `avaliableEventSet` goes out of scope
  | .ok (e, s₂) => .ok (e, { s₂ with heap := s₂.heap.release w })

/-! ### `Event::~Event` -/

/-- The `Event` stops being live and `free` resets its bit. -/
def resetBit (s : State Tid) (e : Event) : State Tid :=
  { s with heap := s.heap.modify e.outer fun set => set.reset e.bit
           events := s.events.erase e }

/-- The test `bits.none()` of `free`. -/
def unused (s : State Tid) (w : Nat) : Bool :=
  match s.heap.get w with
  | some set => set.unused
  | none     => false

/-- `EventAllocator::dispose`, under the scheduler lock: the registry loses the set and every
    expired entry. -/
def dispose (s : State Tid) (w : Nat) : State Tid :=
  { s with eventSets := s.eventSets.filter fun w' => (s.heap.get w').isSome && decide (w' ≠ w) }

/-- `CompactedEventSet::free`. -/
def free (s : State Tid) (e : Event) : State Tid :=
  let s' := resetBit s e
  if unused s' e.outer then dispose s' e.outer else s'

section

variable [DecidableEq Tid]

/-- The wait of a suspended thread is over. -/
def finish (s : State Tid) (t : Tid) (ok : Bool) : State Tid :=
  match s.waiting t with
  | none   => s
  | some e => { s with waiting := Function.update s.waiting t none
                       results := s.results ++ [⟨e.id, t, ok⟩] }

/-- The kernel resumes the threads `ws`. -/
def resume (s : State Tid) (ws : List (Waiter Tid)) (ok : Bool) : State Tid :=
  ws.foldl (fun s w => finish s w.thread ok) s

/-- The member `outer` is released after the body of `~Event`.  With the last owner the set is
    destroyed, and `rt_event_delete` resumes whoever is suspended on it with an error. -/
def releaseOuter (s : State Tid) (w : Nat) : State Tid :=
  let s' := { s with heap := s.heap.release w }
  match s.heap.get w, s'.heap.get w with
  | some set, none => resume s' set.event.suspendThread false
  | _, _           => s'

/-- `Event::~Event`. -/
def destroy (s : State Tid) (e : Event) : State Tid := releaseOuter (free s e) e.outer

/-! ### `Event::set` and `Event::wait` -/

/-- `Event::set`. -/
def setEvent (s : State Tid) (e : Event) : Option (State Tid) :=
  match s.heap.get e.outer with
  | none     => none
  | some set =>
    let (resumed, set') := set.set e.bit
    some (resume { s with heap := s.heap.modify e.outer fun _ => set' } resumed true)

/-- `Event::wait` of thread `t`, until it returns, throws or gives up the processor. -/
def waitEvent (s : State Tid) (t : Tid) (e : Event) (timeout : Int) : Option (State Tid) :=
  match s.heap.get e.outer with
  | none     => none
  | some set =>
    let (r, set') := set.wait t e.bit timeout
    let s' := { s with heap := s.heap.modify e.outer fun _ => set' }
    match r with
    | .received _   => some { s' with results := s.results ++ [⟨e.id, t, true⟩] }
    -- `throw runtime_error{"event timeout"}`
    | .failed _     => some { s' with results := s.results ++ [⟨e.id, t, false⟩] }
    | .suspended    => some { s' with waiting := Function.update s.waiting t (some e) }
    | .assertFailed => none

/-- The timer of the thread `t`, suspended in `e.wait`, runs out. -/
def timeoutEvent (s : State Tid) (t : Tid) (e : Event) : Option (State Tid) :=
  match s.heap.get e.outer with
  | none     => none
  | some set =>
    match rtThreadTimeout set.event t with
    | none     => none
    | some ev' =>
      some (finish { s with heap := s.heap.modify e.outer fun set => { set with event := ev' } }
        t false)

/-! ### One operation -/

/-- The live `Event` with a given identity. -/
def find (s : State Tid) (id : Nat) : Option Event := s.events.find? fun e => decide (e.id = id)

/-- No thread is on the list of the set of `e` for its bit. -/
def noWaiter (s : State Tid) (e : Event) : Bool :=
  match s.heap.get e.outer with
  | none     => true
  | some set => set.event.suspendThread.all fun w => decide (w.eventSet ≠ OneHot.oneHot e.bit)

/-- The operations of the program. -/
inductive Act (Tid : Type) where
  | alloc
  | destroy (id : Nat)
  | set (id : Nat)
  | wait (t : Tid) (id : Nat) (timeout : Int)
  | timeout (t : Tid) (id : Nat)
deriving DecidableEq, Repr

/-- One operation.  Not enabled: operations on an `Event` that is not live, operations of a
    suspended thread.  A thread may still be suspended in the `wait` of an `Event` that another
    thread destroys. -/
def step (s : State Tid) : Act Tid → Option (State Tid)
  | .alloc =>
    match alloc s with
    | .ok (_, s') => some s'
    | .error _    => none
  | .destroy id => (find s id).map fun e => destroy s e
  | .set id => (find s id).bind fun e => setEvent s e
  | .wait t id timeout =>
    match s.waiting t with
    | none   => (find s id).bind fun e => waitEvent s t e timeout
    | some _ => none
  | .timeout t id =>
    match s.waiting t with
    | some e => if e.id = id then timeoutEvent s t e else none
    | none   => none

end

/-! ### The live events -/

/-- Bit `b` of the set `w` belongs to a live `Event`. -/
def Taken (s : State Tid) (w : Nat) (b : Fin 32) : Prop :=
  ∃ e ∈ s.events, e.outer = w ∧ e.bit = b

/-- The set `w` has a live `Event`. -/
def HasEvent (s : State Tid) (w : Nat) : Prop := ∃ e ∈ s.events, e.outer = w

/-- The sets owned by the live `Event`s, one entry for each. -/
def outers (s : State Tid) : List Nat := s.events.map Event.outer

theorem mem_outers {s : State Tid} {w : Nat} : w ∈ outers s ↔ HasEvent s w := by
  simp [outers, HasEvent]

theorem find_some {s : State Tid} {id : Nat} {e : Event} (h : find s id = some e) :
    e ∈ s.events ∧ e.id = id :=
  ⟨List.mem_of_find?_eq_some h, by simpa using List.find?_some h⟩

end RtCharger.Os.EventAllocator
