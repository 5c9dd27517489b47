import RtCharger.Lib.SharedHeap
import RtCharger.Lib.StepSystem
import RtCharger.Devices.HttpSend

namespace RtCharger.Devices

open Effect OneHot SharedHeap StepSystem RtCharger.Kernel RtCharger.Net RtCharger.Os
open RtCharger.Utilities

/-!
# The threads of the HTTP component

Any number of threads inside `Http::send` at once, and the parser thread of the modem, which
handles `+HTTPRESPC` lines.  A flow is shared: the frame of `send` has a reference to it, the
handler takes another one for as long as its argument lives, and the slot refers to it weakly.

A command is one step, since `at_obj_exec_cmd` holds the lock of the client until it has the
result.

* `Pc`, `ParserPc` — the places between the steps of `send` and of the handler;
* `step` — the next step of a thread or of the parser;
* `Did`, `step_did` — everything a step can do, with what it presupposes.
-/

namespace Http

variable {Tid : Type}

/-! ### Places -/

/-- How far `send` is with the flow it has a reference to: the slot does not refer to it yet, or
    the place in the body, or the body is left. -/
inductive Stage where
  | created
  | stored
  | connected
  | sent
  | waiting
  | leaving
deriving DecidableEq, Repr

/-- Where a thread is in `send`. -/
inductive Pc where
  | idle
  /-- `getNext` has returned the slot. -/
  | picked (s : Fin kSlots)
  | holding (stage : Stage) (s : Fin kSlots) (flow : Nat)
  /-- In `~Flow`, of the flow whose last reference the thread has dropped. -/
  | destroying (s : Fin kSlots) (flow : Nat)
deriving DecidableEq, Repr

/-- Where the parser is in the handler of a line; `final` if the flag of the line is zero. -/
inductive ParserPc where
  | idle
  /-- The argument is there: its flow was locked. -/
  | locked (s : Fin kSlots) (flow : Nat) (chunk : List UInt8) (final : Bool)
  /-- `onResponseContent` has returned. -/
  | called (s : Fin kSlots) (flow : Nat) (final : Bool)
  /-- In `~Flow`. -/
  | destroying (s : Fin kSlots) (flow : Nat) (final : Bool)
  /-- The argument is gone, and the event is still to be set. -/
  | returned (s : Fin kSlots) (final : Bool)
deriving DecidableEq, Repr

/-- The flow that a thread has a reference to, and its slot. -/
def Pc.held : Pc → Option (Fin kSlots × Nat)
  | .holding _ s a => some (s, a)
  | _              => none

/-- The flow whose destructor a thread is in, and its slot. -/
def Pc.destroys : Pc → Option (Fin kSlots × Nat)
  | .destroying s a => some (s, a)
  | _               => none

/-- The thread has picked the slot, which does not refer to its flow yet. -/
def Pc.claims (s : Fin kSlots) : Pc → Bool
  | .picked s'            => decide (s' = s)
  | .holding .created s' _ => decide (s' = s)
  | _                     => false

/-- The flow that the argument of the handler refers to, and its slot. -/
def ParserPc.held : ParserPc → Option (Fin kSlots × Nat)
  | .locked s a _ _ | .called s a _ => some (s, a)
  | _                               => none

/-- The flow whose destructor the parser is in, and its slot. -/
def ParserPc.destroys : ParserPc → Option (Fin kSlots × Nat)
  | .destroying s a _ => some (s, a)
  | _                 => none

/-! ### States and actions -/

/-- A command: who issued it (nobody is the parser), for which flow, and its result. -/
structure Issued (Tid : Type) where
  thread : Option Tid
  flow : Nat
  cmd : AtCommand
  result : RtErr
deriving DecidableEq, Repr

/-- The component, its threads, and what has happened. -/
structure Threads (Tid : Type) where
  heap : Heap Flow
  /-- The weak references. -/
  slots : Fin kSlots → Option Nat
  event : EventSet Tid
  pc : Tid → Pc
  parser : ParserPc
  issued : List (Issued Tid)
  /-- The flows for which a line with flag zero was handled. -/
  finals : List Nat
  /-- The flows whose `waitResponse` has returned. -/
  completed : List Nat
  terminated : Bool

/-- Nobody has called `send`. -/
def Threads.initial (Tid : Type) : Threads Tid :=
  ⟨SharedHeap.empty, fun _ => none, EventSet.new Tid, fun _ => .idle, .idle, [], [], [], false⟩

/-- What the weak references lock. -/
def Threads.live (st : Threads Tid) : LimitedSlots Flow kSlots :=
  fun s => (st.slots s).bind st.heap.get

/-- The actions.  Those of a thread are its next step; where the step has a choice, the action
    says which result the command has. -/
inductive Action (Tid : Type) where
  /-- `send` is called and `getNext` returns or throws. -/
  | pick (t : Tid)
  /-- The URL is not one, or something else is thrown before the flow is made. -/
  | refuse (t : Tid)
  | create (t : Tid) (url : UrlResolver) (result : RtErr)
  | store (t : Tid)
  | connect (t : Tid) (result : RtErr)
  | send (t : Tid) (method : HttpMethod) (result : RtErr)
  /-- The body is left by an exception that is neither of a command nor of the wait. -/
  | fail (t : Tid)
  | wait (t : Tid)
  | timeout (t : Tid)
  | drop (t : Tid)
  | destroy (t : Tid) (result : RtErr)
  /-- A line arrives, and its slot is looked up. -/
  | line (s : Fin kSlots) (chunk : List UInt8) (final : Bool)
  | call
  | release
  | destroyOnParser (result : RtErr)
  | raise
deriving DecidableEq, Repr

/-! ### Steps -/

section Steps

variable [DecidableEq Tid]

/-- Thread `t` goes on to `pc`. -/
def Threads.goto (st : Threads Tid) (t : Tid) (pc : Pc) : Threads Tid :=
  { st with pc := Function.update st.pc t pc }

/-- A command is issued. -/
def Threads.record (st : Threads Tid) (t : Option Tid) (a : Nat) (cmd : AtCommand)
    (result : RtErr) : Threads Tid :=
  { st with issued := st.issued ++ [⟨t, a, cmd, result⟩] }

/-- The thread, which waits for the response to its flow, gets it. -/
def Threads.complete (st : Threads Tid) (t : Tid) : Threads Tid :=
  match st.pc t with
  | .holding .waiting s a =>
    { st with completed := st.completed ++ [a] }.goto t (.holding .leaving s a)
  | _ => st

/-- Several threads get it. -/
def Threads.completeAll (st : Threads Tid) : List (Waiter Tid) → Threads Tid
  | []      => st
  | w :: ws => (st.complete w.thread).completeAll ws

/-- The constructor of `Flow`, whose address is the next one.  A failing command leaves no
    flow behind. -/
def Threads.create (st : Threads Tid) (t : Tid) (s : Fin kSlots) (url : UrlResolver)
    (result : RtErr) : Threads Tid :=
  let a := st.heap.next
  let heap := st.heap.make ⟨s, url.host, url.path, []⟩
  let st := st.record (some t) a (.httpCreate s url.host) result
  if result = .ok then { st with heap := heap }.goto t (.holding .created s a)
  else { st with heap := heap.release a }.goto t .idle

/-- A command of the body, after which the thread is at `stage` if it succeeds. -/
def Threads.command (st : Threads Tid) (t : Tid) (s : Fin kSlots) (a : Nat) (cmd : AtCommand)
    (result : RtErr) (stage : Stage) : Threads Tid :=
  (st.record (some t) a cmd result).goto t
    (.holding (if result = .ok then stage else .leaving) s a)

/-- The command of `~Flow`; an exception that it throws ends the program. -/
def Threads.destroySession (st : Threads Tid) (t : Option Tid) (s : Fin kSlots) (a : Nat)
    (result : RtErr) : Threads Tid :=
  { st.record t a (.httpDestroy s) result with terminated := decide (result ≠ .ok) }

/-- The next step of thread `t` in `createFlow`. -/
def stepCreate (st : Threads Tid) (t : Tid) (url : UrlResolver) (result : RtErr) :
    Option (Threads Tid) :=
  match st.pc t with
  | .picked s => some (st.create t s url result)
  | _         => none

/-- `waitResponse` of thread `t`. -/
def stepWait (st : Threads Tid) (t : Tid) (s : Fin kSlots) (a : Nat) : Option (Threads Tid) :=
  let recv := (⟨st.live, st.event⟩ : Http Tid).waitResponse t s
  let st := { st with event := recv.2.event }
  match recv.1 with
  | .received _   => some ({ st with completed := st.completed ++ [a] }.goto t (.holding .leaving s a))
  | .suspended    => some (st.goto t (.holding .waiting s a))
  | .failed _     => some (st.goto t (.holding .leaving s a))
  | .assertFailed => none

/-- The step of a thread or of the parser. -/
def step (st : Threads Tid) (action : Action Tid) : Option (Threads Tid) :=
  if st.terminated then none
  else
    match action with
    | .pick t =>
      match st.pc t, st.live.getNext with
      | .idle, .returned s => some (st.goto t (.picked s))
      | .idle, .threw _    => some st
      | _, _               => none
    | .refuse t =>
      match st.pc t with
      | .picked _ => some (st.goto t .idle)
      | _         => none
    | .create t url result => stepCreate st t url result
    | .store t =>
      match st.pc t with
      | .holding .created s a =>
        some ({ st with slots := Function.update st.slots s (some a) }.goto t (.holding .stored s a))
      | _ => none
    | .connect t result =>
      match st.pc t with
      | .holding .stored s a => some (st.command t s a (.httpCon s) result .connected)
      | _ => none
    | .send t method result =>
      match st.pc t with
      | .holding .connected s a =>
        (st.heap.get a).map fun flow =>
          st.command t s a (.httpSend s method.code flow.path.length flow.path) result .sent
      | _ => none
    | .fail t =>
      match st.pc t with
      | .holding .stored s a | .holding .connected s a | .holding .sent s a =>
        some (st.goto t (.holding .leaving s a))
      | _ => none
    | .wait t =>
      match st.pc t with
      | .holding .sent s a => stepWait st t s a
      | _ => none
    | .timeout t =>
      match st.pc t with
      | .holding .waiting s a =>
        (rtThreadTimeout st.event.object t).map fun object =>
          { st with event := { st.event with object := object } }.goto t (.holding .leaving s a)
      | _ => none
    | .drop t =>
      match st.pc t with
      | .holding .leaving s a =>
        let heap := st.heap.release a
        -- the last reference runs the destructor
        some ({ st with heap := heap }.goto t
          (if (heap.get a).isSome then .idle else .destroying s a))
      | _ => none
    | .destroy t result =>
      match st.pc t with
      | .destroying s a => some ((st.destroySession (some t) s a result).goto t .idle)
      | _ => none
    | .line s chunk final =>
      match st.parser, (st.slots s).bind fun a => (st.heap.get a).map fun _ => a with
      | .idle, some a =>
        some { st with heap := st.heap.acquire a, parser := .locked s a chunk final }
      -- the slot is invalid: what `acuqire` throws is caught
      | .idle, none   => some st
      | _, _          => none
    | .call =>
      match st.parser with
      | .locked s a chunk final =>
        some { st with
          heap := st.heap.modify a fun flow => { flow with response := flow.response ++ chunk }
          parser := .called s a final
          finals := if final then st.finals ++ [a] else st.finals }
      | _ => none
    | .release =>
      match st.parser with
      | .called s a final =>
        let heap := st.heap.release a
        some { st with
          heap := heap
          parser := if (heap.get a).isSome then .returned s final else .destroying s a final }
      | _ => none
    | .destroyOnParser result =>
      match st.parser with
      | .destroying s a final =>
        some { st.destroySession none s a result with parser := .returned s final }
      | _ => none
    | .raise =>
      match st.parser with
      | .returned s true  =>
        let sent := rtEventSend st.event.object (oneHot (doneBit s))
        some ({ st with event := st.event.set (oneHot (doneBit s)), parser := .idle }.completeAll
          sent.2.2)
      | .returned _ false => some { st with parser := .idle }
      | _                 => none

/-! ### What a step can do -/

/-- The commands of the body. -/
def BodyCommand (s : Fin kSlots) (cmd : AtCommand) : Prop :=
  cmd = .httpCon s ∨ ∃ method size path, cmd = .httpSend s method size path

/-- What the step of an action does, and what it presupposes. -/
inductive Did (st : Threads Tid) : Action Tid → Threads Tid → Prop
  | pick {t : Tid} {s : Fin kSlots} (hpc : st.pc t = .idle)
      (hnext : st.live.getNext = .returned s) : Did st (.pick t) (st.goto t (.picked s))
  | exhausted {t : Tid} {e : Exn} (hpc : st.pc t = .idle) (hnext : st.live.getNext = .threw e) :
      Did st (.pick t) st
  | refuse {t : Tid} {s : Fin kSlots} (hpc : st.pc t = .picked s) :
      Did st (.refuse t) (st.goto t .idle)
  | create {t : Tid} {s : Fin kSlots} {url : UrlResolver} (hpc : st.pc t = .picked s) :
      Did st (.create t url .ok)
        ({ st.record (some t) st.heap.next (.httpCreate s url.host) .ok with
            heap := st.heap.make ⟨s, url.host, url.path, []⟩ }.goto t
          (.holding .created s st.heap.next))
  | uncreated {t : Tid} {s : Fin kSlots} {url : UrlResolver} {result : RtErr}
      (hpc : st.pc t = .picked s) (hresult : result ≠ .ok) :
      Did st (.create t url result)
        ({ st.record (some t) st.heap.next (.httpCreate s url.host) result with
            heap := (st.heap.make ⟨s, url.host, url.path, []⟩).release st.heap.next }.goto t .idle)
  | store {t : Tid} {s : Fin kSlots} {a : Nat} (hpc : st.pc t = .holding .created s a) :
      Did st (.store t)
        ({ st with slots := Function.update st.slots s (some a) }.goto t (.holding .stored s a))
  | command {action : Action Tid} {t : Tid} {stage stage' : Stage} {s : Fin kSlots} {a : Nat}
      {cmd : AtCommand} {result : RtErr}
      (haction : action = .connect t result ∨ ∃ method, action = .send t method result)
      (hpc : st.pc t = .holding stage s a) (hcmd : BodyCommand s cmd)
      (hstage : stage = .stored ∨ stage = .connected)
      (hstage' : stage' = .connected ∨ stage' = .sent ∨ stage' = .leaving) :
      Did st action ((st.record (some t) a cmd result).goto t (.holding stage' s a))
  | fail {t : Tid} {stage : Stage} {s : Fin kSlots} {a : Nat}
      (hpc : st.pc t = .holding stage s a)
      (hstage : stage = .stored ∨ stage = .connected ∨ stage = .sent) :
      Did st (.fail t) (st.goto t (.holding .leaving s a))
  | received {t : Tid} {s : Fin kSlots} {a : Nat} (hpc : st.pc t = .holding .sent s a)
      (hbit : st.event.isSet (doneBit s) = true) :
      Did st (.wait t)
        ({ st with event := st.event.take (doneBit s), completed := st.completed ++ [a] }.goto t
          (.holding .leaving s a))
  | suspended {t : Tid} {s : Fin kSlots} {a : Nat} (hpc : st.pc t = .holding .sent s a)
      (hbit : st.event.isSet (doneBit s) = false) :
      Did st (.wait t)
        ({ st with event := st.event.suspend t (doneBit s) }.goto t (.holding .waiting s a))
  | timeout {t : Tid} {s : Fin kSlots} {a : Nat} {object : RtEvent Tid}
      (hpc : st.pc t = .holding .waiting s a)
      (hobject : rtThreadTimeout st.event.object t = some object) :
      Did st (.timeout t)
        ({ st with event := { st.event with object := object } }.goto t (.holding .leaving s a))
  | drop {t : Tid} {s : Fin kSlots} {a : Nat} (hpc : st.pc t = .holding .leaving s a)
      (hlast : ((st.heap.release a).get a).isSome = true) :
      Did st (.drop t) ({ st with heap := st.heap.release a }.goto t .idle)
  | dropLast {t : Tid} {s : Fin kSlots} {a : Nat} (hpc : st.pc t = .holding .leaving s a)
      (hlast : (st.heap.release a).get a = none) :
      Did st (.drop t) ({ st with heap := st.heap.release a }.goto t (.destroying s a))
  | destroy {t : Tid} {s : Fin kSlots} {a : Nat} {result : RtErr}
      (hpc : st.pc t = .destroying s a) :
      Did st (.destroy t result) ((st.destroySession (some t) s a result).goto t .idle)
  | lock {s : Fin kSlots} {a : Nat} {flow : Flow} {chunk : List UInt8} {final : Bool}
      (hparser : st.parser = .idle) (hslot : st.slots s = some a) (hget : st.heap.get a = some flow) :
      Did st (.line s chunk final)
        { st with heap := st.heap.acquire a, parser := .locked s a chunk final }
  | unmatched {s : Fin kSlots} {chunk : List UInt8} {final : Bool} (hparser : st.parser = .idle)
      (hnone : ∀ a, st.slots s = some a → st.heap.get a = none) : Did st (.line s chunk final) st
  | call {s : Fin kSlots} {a : Nat} {chunk : List UInt8} {final : Bool}
      (hparser : st.parser = .locked s a chunk final) :
      Did st .call { st with
        heap := st.heap.modify a fun flow => { flow with response := flow.response ++ chunk }
        parser := .called s a final
        finals := if final then st.finals ++ [a] else st.finals }
  | release {s : Fin kSlots} {a : Nat} {final : Bool} (hparser : st.parser = .called s a final)
      (hlast : ((st.heap.release a).get a).isSome = true) :
      Did st .release { st with heap := st.heap.release a, parser := .returned s final }
  | releaseLast {s : Fin kSlots} {a : Nat} {final : Bool} (hparser : st.parser = .called s a final)
      (hlast : (st.heap.release a).get a = none) :
      Did st .release { st with heap := st.heap.release a, parser := .destroying s a final }
  | destroyOnParser {s : Fin kSlots} {a : Nat} {final : Bool} {result : RtErr}
      (hparser : st.parser = .destroying s a final) :
      Did st (.destroyOnParser result)
        { st.destroySession none s a result with parser := .returned s final }
  | raise {s : Fin kSlots} (hparser : st.parser = .returned s true) :
      Did st .raise
        ({ st with event := st.event.set (oneHot (doneBit s)), parser := .idle }.completeAll
          (rtEventSend st.event.object (oneHot (doneBit s))).2.2)
  | lower {s : Fin kSlots} (hparser : st.parser = .returned s false) :
      Did st .raise { st with parser := .idle }

variable {st st' : Threads Tid} {action : Action Tid}

/-- `waitResponse`: the bit of the slot decides. -/
theorem stepWait_did {t : Tid} {s : Fin kSlots} {a : Nat} (hpc : st.pc t = .holding .sent s a)
    (h : stepWait st t s a = some st') : Did st (.wait t) st' := by
  unfold stepWait at h
  rw [waitResponse_eq] at h
  by_cases hbit : st.event.isSet (doneBit s) = true
  · simp only [hbit, if_true, Option.some.injEq] at h
    subst h
    exact .received hpc hbit
  · simp only [hbit, Bool.false_eq_true, if_false, Option.some.injEq] at h
    subst h
    exact .suspended hpc (by simpa using hbit)

/-- Nothing happens after the end of the program. -/
theorem running_of_step (h : step st action = some st') : st.terminated = false := by
  by_contra hterminated
  rw [Bool.not_eq_false] at hterminated
  simp [step, hterminated] at h

/-- `getNext` has a slot, or throws. -/
theorem pick_did {t : Tid} (h : step st (.pick t) = some st') : Did st (.pick t) st' := by
  have hrunning := ne_true_of_eq_false (running_of_step h)
  rw [step, if_neg hrunning] at h
  split at h
  · rename_i s hpc hnext
    obtain rfl := Option.some.inj h
    exact .pick hpc hnext
  · rename_i e hpc hnext
    obtain rfl := Option.some.inj h
    exact .exhausted hpc hnext
  · cases h

theorem refuse_did {t : Tid} (h : step st (.refuse t) = some st') : Did st (.refuse t) st' := by
  have hrunning := ne_true_of_eq_false (running_of_step h)
  rw [step, if_neg hrunning] at h
  split at h
  · rename_i s hpc
    obtain rfl := Option.some.inj h
    exact .refuse hpc
  · cases h

/-- The session is there, or its command has failed. -/
theorem create_did {t : Tid} {url : UrlResolver} {result : RtErr}
    (h : step st (.create t url result) = some st') : Did st (.create t url result) st' := by
  have hrunning := ne_true_of_eq_false (running_of_step h)
  rw [step, if_neg hrunning] at h
  simp only [stepCreate] at h
  split at h
  · rename_i s hpc
    obtain rfl := Option.some.inj h
    unfold Threads.create
    -- a flow whose command failed is released on the way out
    by_cases hresult : result = .ok
    · subst hresult
      exact .create hpc
    · simp only [hresult, if_false]
      exact .uncreated hpc hresult
  · cases h

theorem store_did {t : Tid} (h : step st (.store t) = some st') : Did st (.store t) st' := by
  have hrunning := ne_true_of_eq_false (running_of_step h)
  rw [step, if_neg hrunning] at h
  split at h
  · rename_i s a hpc
    obtain rfl := Option.some.inj h
    exact .store hpc
  · cases h

theorem connect_did {t : Tid} {result : RtErr} (h : step st (.connect t result) = some st') :
    Did st (.connect t result) st' := by
  have hrunning := ne_true_of_eq_false (running_of_step h)
  rw [step, if_neg hrunning] at h
  split at h
  · rename_i s a hpc
    obtain rfl := Option.some.inj h
    refine .command (Or.inl rfl) hpc (Or.inl rfl) (Or.inl rfl) ?_
    -- the next stage, or the way out
    by_cases hresult : result = .ok <;> simp [hresult]
  · cases h

theorem send_did {t : Tid} {method : HttpMethod} {result : RtErr}
    (h : step st (.send t method result) = some st') : Did st (.send t method result) st' := by
  have hrunning := ne_true_of_eq_false (running_of_step h)
  rw [step, if_neg hrunning] at h
  split at h
  · rename_i s a hpc
    obtain ⟨flow, _, rfl⟩ := Option.map_eq_some_iff.mp h
    refine .command (Or.inr ⟨method, rfl⟩) hpc (Or.inr ⟨_, _, _, rfl⟩) (Or.inr rfl) ?_
    by_cases hresult : result = .ok <;> simp [hresult]
  · cases h

/-- The body may be left at three places. -/
theorem fail_did {t : Tid} (h : step st (.fail t) = some st') : Did st (.fail t) st' := by
  have hrunning := ne_true_of_eq_false (running_of_step h)
  rw [step, if_neg hrunning] at h
  split at h
  · rename_i s a hpc
    obtain rfl := Option.some.inj h
    exact .fail hpc (Or.inl rfl)
  · rename_i s a hpc
    obtain rfl := Option.some.inj h
    exact .fail hpc (Or.inr (Or.inl rfl))
  · rename_i s a hpc
    obtain rfl := Option.some.inj h
    exact .fail hpc (Or.inr (Or.inr rfl))
  · cases h

theorem wait_did {t : Tid} (h : step st (.wait t) = some st') : Did st (.wait t) st' := by
  have hrunning := ne_true_of_eq_false (running_of_step h)
  rw [step, if_neg hrunning] at h
  split at h
  · rename_i s a hpc
    exact stepWait_did hpc h
  · cases h

theorem timeout_did {t : Tid} (h : step st (.timeout t) = some st') : Did st (.timeout t) st' := by
  have hrunning := ne_true_of_eq_false (running_of_step h)
  rw [step, if_neg hrunning] at h
  simp only at h
  split at h
  · rename_i s a hpc
    obtain ⟨object, hobject, rfl⟩ := Option.map_eq_some_iff.mp h
    exact .timeout hpc hobject
  · cases h

/-- Whoever releases the last reference is in the destructor. -/
theorem drop_did {t : Tid} (h : step st (.drop t) = some st') : Did st (.drop t) st' := by
  have hrunning := ne_true_of_eq_false (running_of_step h)
  rw [step, if_neg hrunning] at h
  simp only at h
  split at h
  · rename_i s a hpc
    obtain rfl := Option.some.inj h
    -- whoever releases the last reference runs the destructor
    by_cases hlast : ((st.heap.release a).get a).isSome = true
    · rw [if_pos hlast]
      exact .drop hpc hlast
    · rw [if_neg hlast]
      exact .dropLast hpc (by simpa using hlast)
  · cases h

theorem destroy_did {t : Tid} {result : RtErr} (h : step st (.destroy t result) = some st') :
    Did st (.destroy t result) st' := by
  have hrunning := ne_true_of_eq_false (running_of_step h)
  rw [step, if_neg hrunning] at h
  split at h
  · rename_i s a hpc
    obtain rfl := Option.some.inj h
    exact .destroy hpc
  · cases h

/-- The session of the slot is locked, if there is one. -/
theorem line_did {s : Fin kSlots} {chunk : List UInt8} {final : Bool}
    (h : step st (.line s chunk final) = some st') : Did st (.line s chunk final) st' := by
  have hrunning := ne_true_of_eq_false (running_of_step h)
  rw [step, if_neg hrunning] at h
  split at h
  · rename_i a hparser hlook
    obtain rfl := Option.some.inj h
    obtain ⟨a', hslot, hmap⟩ := Option.bind_eq_some_iff.mp hlook
    obtain ⟨flow, hget, rfl⟩ := Option.map_eq_some_iff.mp hmap
    exact .lock hparser hslot hget
  · -- no session in the slot, or one that is no more
    rename_i hparser hlook
    obtain rfl := Option.some.inj h
    refine .unmatched hparser fun a hslot => ?_
    rw [hslot, Option.bind_some] at hlook
    exact Option.map_eq_none_iff.mp hlook
  · cases h

theorem call_did (h : step st .call = some st') : Did st .call st' := by
  have hrunning := ne_true_of_eq_false (running_of_step h)
  rw [step, if_neg hrunning] at h
  split at h
  · rename_i s a chunk final hparser
    obtain rfl := Option.some.inj h
    exact .call hparser
  · cases h

/-- The parser may be the one that releases the last reference. -/
theorem release_did (h : step st .release = some st') : Did st .release st' := by
  have hrunning := ne_true_of_eq_false (running_of_step h)
  rw [step, if_neg hrunning] at h
  simp only at h
  split at h
  · rename_i s a final hparser
    obtain rfl := Option.some.inj h
    by_cases hlast : ((st.heap.release a).get a).isSome = true
    · rw [if_pos hlast]
      exact .release hparser hlast
    · rw [if_neg hlast]
      exact .releaseLast hparser (by simpa using hlast)
  · cases h

theorem destroyOnParser_did {result : RtErr} (h : step st (.destroyOnParser result) = some st') :
    Did st (.destroyOnParser result) st' := by
  have hrunning := ne_true_of_eq_false (running_of_step h)
  rw [step, if_neg hrunning] at h
  simp only at h
  split at h
  · rename_i s a final hparser
    obtain rfl := Option.some.inj h
    exact .destroyOnParser hparser
  · cases h

/-- The event is set after the last part only. -/
theorem raise_did (h : step st .raise = some st') : Did st .raise st' := by
  have hrunning := ne_true_of_eq_false (running_of_step h)
  rw [step, if_neg hrunning] at h
  simp only at h
  split at h
  · rename_i s hparser
    obtain rfl := Option.some.inj h
    exact .raise hparser
  · rename_i s hparser
    obtain rfl := Option.some.inj h
    exact .lower hparser
  · cases h

/-- **Everything a step can do.** -/
theorem step_did (h : step st action = some st') : Did st action st' := by
  cases action with
  | pick t => exact pick_did h
  | refuse t => exact refuse_did h
  | create t url result => exact create_did h
  | store t => exact store_did h
  | connect t result => exact connect_did h
  | send t method result => exact send_did h
  | fail t => exact fail_did h
  | wait t => exact wait_did h
  | timeout t => exact timeout_did h
  | drop t => exact drop_did h
  | destroy t result => exact destroy_did h
  | line s chunk final => exact line_did h
  | call => exact call_did h
  | release => exact release_did h
  | destroyOnParser result => exact destroyOnParser_did h
  | raise => exact raise_did h

/-- A slot is picked. -/
theorem step_pick {t : Tid} {s : Fin kSlots} (hnext : st.live.getNext = .returned s)
    (h : step st (.pick t) = some st') : st.pc t = .idle ∧ st' = st.goto t (.picked s) := by
  cases step_did h with
  | command haction _ _ _ _ =>
    rcases haction with haction | ⟨_, haction⟩ <;> cases haction
  | pick hpc hnext' =>
    rw [hnext] at hnext'
    cases hnext'
    exact ⟨hpc, rfl⟩
  | exhausted _ hnext' =>
    rw [hnext] at hnext'
    cases hnext'

/-- A thread that has picked a slot may create a session in it, whatever else there is. -/
theorem step_create_ok {t : Tid} {s : Fin kSlots} (hrunning : st.terminated = false)
    (hpc : st.pc t = .picked s) (url : UrlResolver) : step st (.create t url .ok)
      = some ({ st.record (some t) st.heap.next (.httpCreate s url.host) .ok with
          heap := st.heap.make ⟨s, url.host, url.path, []⟩ }.goto t
            (.holding .created s st.heap.next)) := by
  simp [step, stepCreate, Threads.create, hrunning, hpc]

end Steps

/-- A URL. -/
def sampleUrl : UrlResolver := ⟨"http://h".toList, "/p".toList⟩

/-- A request as far as the wait for its response. -/
def requestUpToWait (t : Tid) : List (Action Tid) :=
  [.pick t, .create t sampleUrl .ok, .store t, .connect t .ok, .send t .get .ok, .wait t]

/-- A request whose response comes in time. -/
def oneRequest (t : Tid) : List (Action Tid) :=
  requestUpToWait t ++ [.line slot0 [] true, .call, .release, .raise, .drop t, .destroy t .ok]

end Http

end RtCharger.Devices
