import Mathlib.Data.List.Basic

namespace AutoReset

/-!
# The auto-reset event

The textbook event with one flag: `set` wakes the thread that waits longest, or leaves the
flag up when nobody waits; `wait` takes the flag down and goes on, or suspends the thread;
a waiter whose timer runs may time out.

* `step` — one operation; the finished waits are recorded in `results`;
* `set_wellFormed`, `wait_wellFormed` — the flag is never up while a thread is suspended.
-/

variable {Tid : Type}

/-- The state of one auto-reset event. -/
structure State (Tid : Type) where
  /-- The event is signalled. -/
  flag : Bool
  /-- The suspended threads, longest waiting first, and whether their timer runs. -/
  waiters : List (Tid × Bool)
  /-- The waits that have finished, in order: the thread, and whether it got the event. -/
  results : List (Tid × Bool)
deriving DecidableEq, Repr

/-- The operations on an event.  A `wait` with time-out `0` never suspends, with a negative
    one it waits for ever. -/
inductive Op (Tid : Type) where
  | set
  | wait (t : Tid) (timeout : Int)
  | timeout (t : Tid)
deriving DecidableEq, Repr

/-- A new event: clear, and nobody waits. -/
def initial : State Tid := ⟨false, [], []⟩

/-- `set`: the first waiter gets the event, or the flag goes up. -/
def set (e : State Tid) : State Tid :=
  match e.waiters with
  | []      => { e with flag := true }
  | w :: ws => { e with waiters := ws, results := e.results ++ [(w.1, true)] }

/-- The thread that a `set` wakes. -/
def woken (e : State Tid) : Option Tid := e.waiters.head?.map Prod.fst

/-- `wait` of thread `t`. -/
def wait (e : State Tid) (t : Tid) (timeout : Int) : State Tid :=
  if e.flag then { e with flag := false, results := e.results ++ [(t, true)] }
  else if timeout = 0 then { e with results := e.results ++ [(t, false)] }
  else { e with waiters := e.waiters ++ [(t, decide (0 < timeout))] }

/-- The suspended threads. -/
def suspended (e : State Tid) : List Tid := e.waiters.map Prod.fst

variable [DecidableEq Tid]

/-- The timer of a suspended thread runs out. -/
def timeout (e : State Tid) (t : Tid) : Option (State Tid) :=
  if e.waiters.any (fun w => decide (w.1 = t) && w.2) then
    some { e with waiters := e.waiters.filter (fun w => decide (w.1 ≠ t))
                  results := e.results ++ [(t, false)] }
  else none

/-- One operation. -/
def step (e : State Tid) : Op Tid → Option (State Tid)
  | .set       => some (set e)
  | .wait t d  => some (wait e t d)
  | .timeout t => timeout e t

/-! ### Reading after an operation -/

omit [DecidableEq Tid] in
@[simp] theorem suspended_set (e : State Tid) : suspended (set e) = (suspended e).tail := by
  unfold set suspended
  split
  · rename_i hw
    simp [hw]
  · rename_i w ws hw
    simp [hw]

omit [DecidableEq Tid] in
theorem flag_set (e : State Tid) : (set e).flag = (e.flag || (suspended e).isEmpty) := by
  unfold set suspended
  split
  · rename_i hw
    simp [hw]
  · rename_i w ws hw
    simp [hw]

omit [DecidableEq Tid] in
theorem woken_eq (e : State Tid) : woken e = (suspended e).head? := by
  simp [woken, suspended]

omit [DecidableEq Tid] in
/-- A wait that may suspend does so when the event is clear. -/
theorem suspended_wait (e : State Tid) (t : Tid) {timeout : Int} (hd : timeout ≠ 0) :
    suspended (wait e t timeout) = if e.flag then suspended e else suspended e ++ [t] := by
  by_cases hf : e.flag = true
  · simp [wait, suspended, hf]
  · simp [wait, suspended, hf, hd]

omit [DecidableEq Tid] in
/-- After a wait the event is clear. -/
@[simp] theorem flag_wait (e : State Tid) (t : Tid) (timeout : Int) :
    (wait e t timeout).flag = false := by
  by_cases hf : e.flag = true
  · simp [wait, hf]
  · unfold wait
    rw [if_neg hf]
    split <;> simpa using hf

/-! ### The flag is down while a thread is suspended -/

/-- A signalled event has no waiters. -/
def WellFormed (e : State Tid) : Prop := e.flag = true → e.waiters = []

omit [DecidableEq Tid] in
theorem set_wellFormed {e : State Tid} (h : WellFormed e) : WellFormed (set e) := by
  unfold set
  split
  · rename_i hw
    exact fun _ => hw
  · rename_i w ws hw
    intro hflag
    have hnil := h hflag
    rw [hw] at hnil
    cases hnil

omit [DecidableEq Tid] in
theorem wait_wellFormed {e : State Tid} (h : WellFormed e) (t : Tid) (d : Int) :
    WellFormed (wait e t d) := by
  unfold wait
  by_cases hf : e.flag = true
  · rw [if_pos hf]
    intro hflag
    cases hflag
  · rw [if_neg hf]
    split
    · exact h
    · exact fun hflag => absurd hflag hf

end AutoReset
