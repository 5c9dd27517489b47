import RtCharger.Lib.SharedHeap
import RtCharger.Os.PostDelivery

namespace RtCharger.Os.Reply

open SharedHeap

/-!
# Temporary `Deliver`s

`signal(post(f), args...)` makes a `Deliver` for the replies of one emission, and `Task::exec`
makes one for a single call (`signals.hxx`, `task.hxx`).  Such a `Deliver` is owned by
`Post::delivers`, by its entries in `Post::queue`, by the emitter until the full expression ends
and by the polling thread while it works on it; the closures through which it is replied to
hold a bare `this`.  Each of its contexts is tagged `ShortTerm`, so `invoke` disposes of it.

* `begin`, `call`, `leave` — an emission, from `post(f)` to the end of the full expression;
* `reply` — a subscriber that is a `Deliver` of another `Post` replies, at some later time;
* `enqueue` — the second half of any reply;
* `pop`, `invoke`, `done` — one round of `Post::poll`.

A reply to a destroyed `Deliver` is undefined: such a step is not enabled.
-/

/-- A subscriber of a `Signals`: a callback, called during the emission, or a `Deliver` of
    another `Post`, invoked later by that `Post`'s polling thread. -/
inductive Subscriber where
  | plain
  | deferred
deriving DecidableEq, Repr

/-- How a subscriber or the function of a `Deliver` came back. -/
inductive Outcome where
  | returned
  | threw
deriving DecidableEq, Repr

/-- An emission in progress: its thread, its temporary `Deliver` and the subscribers not called
    yet. -/
structure Frame (Tid : Type) where
  thread : Tid
  deliver : Nat
  rest : List Subscriber
deriving DecidableEq, Repr

/-- A `Post` with its temporary `Deliver`s. -/
structure State (Tid : Type) where
  post : Post.State Tid Outcome
  /-- The temporary `Deliver`s, owned by `shared_ptr`s. -/
  heap : Heap Unit
  /-- `Post::delivers`. -/
  delivers : List Nat
  /-- The emissions in progress. -/
  frames : List (Frame Tid)
  /-- The deferred subscribers that have been called and have not replied yet: the `Deliver`
      each will reply to. -/
  pending : List Nat
  /-- The local `front` of `Post::poll`. -/
  front : Option Nat
  /-- The number of subscribers that are to reply to a `Deliver`. -/
  replies : Nat → Nat

/-- No temporary `Deliver`. -/
def initial (Tid : Type) : State Tid :=
  ⟨Post.initial Tid Outcome, SharedHeap.empty, [], [], [], none, fun _ => 0⟩

variable {Tid : Type}

/-- The `Deliver` is not destroyed. -/
def State.alive (s : State Tid) (d : Nat) : Bool := (s.heap.get d).isSome

/-- `post(f)`: a new `Deliver`, owned by the emitter's temporary and by `delivers`; the emission
    to `subs` begins. -/
def State.begin (s : State Tid) (t : Tid) (subs : List Subscriber) : State Tid :=
  let d := s.heap.next
  { s with heap := (s.heap.make ()).acquire d
           delivers := s.delivers ++ [d]
           frames := ⟨t, d, subs⟩ :: s.frames
           replies := Function.update s.replies d subs.length }

/-- `DeliverBase::dispose`. -/
def State.dispose (s : State Tid) (d : Nat) : State Tid :=
  { s with delivers := s.delivers.filter fun d' => decide (d' ≠ d)
           heap := s.heap.releaseMany d (s.delivers.count d) }

/-- `auto front = queue.pop()`: the owner in the queue becomes the local. -/
def State.pop (s : State Tid) : Option (State Tid) :=
  match s.front, s.post.pop with
  | none, some (d, post) => some { s with post := post, front := some d }
  | _, _                 => none

/-- `front->invoke()`.  Whether `f` returns or throws, its result goes to a signal without
    subscribers, and the `Deliver` is disposed of. -/
def State.invoke (s : State Tid) (self : Tid) (_f : Outcome) : Option (State Tid) :=
  match s.post.front with
  | none   => none
  | some d =>
    match s.post.invoke self d with
    | (none, post)   => some { s with post := post }
    -- every context is tagged `ShortTerm`
    | (some _, post) => some ({ s with post := post }.dispose d)

/-- The round is over and `front` goes out of scope. -/
def State.done (s : State Tid) : Option (State Tid) :=
  match s.post.front, s.front with
  | none, some d => some { s with front := none, heap := s.heap.release d }
  | _, _         => none

variable [DecidableEq Tid]

/-- The emission of thread `t` with the `Deliver` `d`. -/
def State.frameOf (s : State Tid) (t : Tid) (d : Nat) : Option (Frame Tid) :=
  s.frames.find? fun f => decide (f.thread = t ∧ f.deliver = d)

/-- The frame `f` goes on with `rest`. -/
def State.advance (s : State Tid) (f : Frame Tid) (rest : List Subscriber) : List (Frame Tid) :=
  { f with rest := rest } :: s.frames.erase f

/-- The emission calls its next subscriber: a callback comes back and the first half of its reply
    follows at once, a `Deliver` of another `Post` is only queued there. -/
def State.call (s : State Tid) (f : Frame Tid) (o : Outcome) : Option (State Tid) :=
  match f.rest with
  | [] => none
  | .plain :: rest =>
    -- `r(…)` runs inside the subscriber, on the emitter's thread
    if s.alive f.deliver then
      some { s with post := s.post.pushContext f.thread f.deliver o
                    frames := s.advance f rest }
    else none
  | .deferred :: rest =>
    some { s with pending := f.deliver :: s.pending, frames := s.advance f rest }

/-- The full expression ends and the emitter's temporary goes. -/
def State.leave (s : State Tid) (f : Frame Tid) : Option (State Tid) :=
  match f.rest with
  | []     => some { s with frames := s.frames.erase f, heap := s.heap.release f.deliver }
  | _ :: _ => none

/-- A deferred subscriber comes back, on thread `t`: the first half of its reply. -/
def State.reply (s : State Tid) (t : Tid) (d : Nat) (o : Outcome) : Option (State Tid) :=
  if d ∈ s.pending ∧ s.alive d then
    some { s with post := s.post.pushContext t d o, pending := s.pending.erase d }
  else none

/-- The second half of a reply: `Post::queue` gets an owner. -/
def State.enqueue (s : State Tid) (t : Tid) (d : Nat) : Option (State Tid) :=
  if s.alive d then some { s with post := s.post.enqueue t d, heap := s.heap.acquire d } else none

/-- The steps of the emitters, of the subscribers and of the polling thread. -/
inductive Act (Tid : Type) where
  | emit (t : Tid) (subs : List Subscriber)
  | exec (t : Tid)
  | call (t : Tid) (d : Nat) (o : Outcome)
  | leave (t : Tid) (d : Nat)
  | reply (t : Tid) (d : Nat) (o : Outcome)
  | enqueue (t : Tid)
  | pop
  | invoke (f : Outcome)
  | done
deriving DecidableEq, Repr

/-- One step; `self` is the polling thread.  A thread between the two halves of a reply does
    nothing else.  `Task::exec` of another thread is an emission with one immediate reply, of the
    polling thread itself a plain call. -/
def step (self : Tid) (s : State Tid) : Act Tid → Option (State Tid)
  | .emit t subs => if s.post.midwayOf t = none then some (s.begin t subs) else none
  | .exec t =>
    if s.post.midwayOf t = none then
      -- `if(isCurrent()) execInternal(…)` makes no `Deliver`
      if t = self then some s else some (s.begin t [.plain])
    else none
  | .call t d o =>
    if s.post.midwayOf t = none then (s.frameOf t d).bind fun f => s.call f o else none
  | .leave t d =>
    if s.post.midwayOf t = none then (s.frameOf t d).bind fun f => s.leave f else none
  | .reply t d o => if s.post.midwayOf t = none then s.reply t d o else none
  | .enqueue t => (s.post.midwayOf t).bind fun m => s.enqueue t m.2
  | .pop => s.pop
  | .invoke f => s.invoke self f
  | .done => s.done

end RtCharger.Os.Reply
