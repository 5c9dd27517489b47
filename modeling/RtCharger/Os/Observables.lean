import RtCharger.Lib.StepSystem
import Mathlib.Logic.Function.Basic

namespace RtCharger.Os.Observables

open StepSystem

/-!
# Observables and their subscribers

`Observable<T>` of `observable.hxx` with the loop of `Signals<void(const T&)>::operator()`, for
all the observables of a program at once: a subscriber may assign to any of them, its own
included, so that one notification runs inside another.  Everything happens on one thread.

* `Body` — what a subscriber does;
* `operatorAssign`, `operatorIncrement`, `next`, `step` — the machine, with a stack of what is
  still to be done;
* `bound` — the closure that binds one observable to another;
* `Told` — a subscriber has last been told what is stored.
-/

/-- The operations that notify. -/
inductive Op (T : Type) where
  | assign (newVal : T)
  | increment
deriving DecidableEq, Repr

/-- What a subscriber does when it is notified: its work on the observables `Obs`, which hold
    a `T`, and on the rest of the program's state `σ`.  A `std::exception` ends it like
    a return. -/
inductive Body (Obs σ T : Type) where
  | done
  | other (f : σ → σ) (k : σ → Body Obs σ T)
  | read (o : Obs) (k : T → Body Obs σ T)
  | call (o : Obs) (op : Op T) (k : T → Body Obs σ T)

/-- What `onChanged` is called with. -/
inductive Arg (T : Type) where
  /-- the parameter of `operator=` -/
  | newVal (v : T)
  /-- a reference to the member `value` -/
  | value
deriving DecidableEq, Repr

/-- What a subscriber reads from the argument while `value` is `v`. -/
def Arg.read : Arg T → T → T
  | .newVal p, _ => p
  | .value, v    => v

/-- What is still to be done: the rest of a subscriber, or the rest of the loop over
    `onChanged.cbs`, which has reached the `i`-th subscriber. -/
inductive Task (Obs σ T : Type) where
  | body (b : Body Obs σ T)
  | loop (o : Obs) (arg : Arg T) (i : Nat) (cbs : List (T → Body Obs σ T))

/-- The observables of a program. -/
structure State (Obs σ T : Type) where
  value : Obs → T
  onChanged : Obs → List (T → Body Obs σ T)
  rest : σ
  control : List (Task Obs σ T)
  /-- What the `i`-th subscriber of an observable was called with, in order. -/
  heard : Obs × Nat → List T
  /-- How often an observable changed. -/
  changes : Obs → Nat
  /-- How often it had changed when its `i`-th subscriber came. -/
  since : Obs × Nat → Nat

/-- New observables. -/
def initial (value : Obs → T) (rest : σ) : State Obs σ T :=
  ⟨value, fun _ => [], rest, [], fun _ => [], fun _ => 0, fun _ => 0⟩

variable {Obs σ T : Type} [DecidableEq Obs] [DecidableEq T]

/-- `value = v`. -/
def State.change (s : State Obs σ T) (o : Obs) (v : T) : State Obs σ T :=
  { s with value   := Function.update s.value o v
           changes := Function.update s.changes o (s.changes o + 1) }

/-- `cb(ret_sig_t(), p...)` up to the first step of the `i`-th subscriber. -/
def State.hear (s : State Obs σ T) (o : Obs) (i : Nat) (v : T) : State Obs σ T :=
  { s with heard := Function.update s.heard (o, i) (s.heard (o, i) ++ [v]) }

/-- `Observable::operator=(const T newVal)`, with what is to be done after it returns. -/
def operatorAssign (s : State Obs σ T) (o : Obs) (newVal : T) (k : T → List (Task Obs σ T)) :
    State Obs σ T :=
  if s.value o = newVal then { s with control := k newVal }
  else { s.change o newVal with
         control := .loop o (.newVal newVal) 0 (s.onChanged o) :: k newVal }

/-- `Observable::operator++(int)`, where `inc` is `value++`. -/
def operatorIncrement (inc : T → T) (s : State Obs σ T) (o : Obs) (k : T → List (Task Obs σ T)) :
    State Obs σ T :=
  let old := s.value o
  { s.change o (inc old) with control := .loop o .value 0 (s.onChanged o) :: k old }

/-- Either of them. -/
def enter (inc : T → T) (s : State Obs σ T) (o : Obs) (op : Op T) (k : T → List (Task Obs σ T)) :
    State Obs σ T :=
  match op with
  | .assign newVal => operatorAssign s o newVal k
  | .increment     => operatorIncrement inc s o k

/-- The next step of what is to be done. -/
def next (inc : T → T) (s : State Obs σ T) : Option (State Obs σ T) :=
  match s.control with
  | []                            => none
  | .body .done :: c              => some { s with control := c }
  | .body (.other f k) :: c       =>
      some { s with rest := f s.rest, control := .body (k s.rest) :: c }
  | .body (.read o k) :: c        => some { s with control := .body (k (s.value o)) :: c }
  | .body (.call o op k) :: c     => some (enter inc s o op fun r => .body (k r) :: c)
  | .loop _ _ _ [] :: c           => some { s with control := c }
  | .loop o arg i (cb :: cbs) :: c =>
      let p := arg.read (s.value o)
      some { s.hear o i p with control := .body (cb p) :: .loop o arg (i + 1) cbs :: c }

/-- What can happen: a subscription, an outermost operation, the next step of one, or anything
    in the rest of the program. -/
inductive Act (Obs σ T : Type) where
  | subscribe (o : Obs) (cb : T → Body Obs σ T)
  | call (o : Obs) (op : Op T)
  | next
  | other (f : σ → σ)

/-- `onChanged += cb`. -/
def State.subscribe (s : State Obs σ T) (o : Obs) (cb : T → Body Obs σ T) : State Obs σ T :=
  { s with onChanged := Function.update s.onChanged o (s.onChanged o ++ [cb])
           since     := Function.update s.since (o, (s.onChanged o).length) (s.changes o) }

/-- What is done only while no operation is in progress. -/
def State.outermost (s s' : State Obs σ T) : Option (State Obs σ T) :=
  match s.control with
  | []     => some s'
  | _ :: _ => none

/-- One step. -/
def step (inc : T → T) (s : State Obs σ T) : Act Obs σ T → Option (State Obs σ T)
  | .subscribe o cb => s.outermost (s.subscribe o cb)
  | .call o op      => s.outermost (enter inc s o op fun _ => [])
  | .next           => next inc s
  | .other f        => s.outermost { s with rest := f s.rest }

/-- The closure of `Observable::operator=(Observable<T>& other)`.  The `value` in it is that of
    `*this`; the argument is not used. -/
def bound (this : Obs) : T → Body Obs σ T := fun _ =>
  .read this fun value => .call this (.assign value) fun _ => .done

/-- The `i`-th subscriber of `o` was last called with what is stored, or nothing has changed
    since it came. -/
def Told (s : State Obs σ T) (o : Obs) (i : Nat) : Prop :=
  (s.heard (o, i)).getLast? = some (s.value o) ∨ s.since (o, i) = s.changes o

/-! ### What one step does -/

/-- The task will call the `i`-th subscriber of `o`. -/
def Task.Awaits (o : Obs) (i : Nat) : Task Obs σ T → Prop
  | .body _           => False
  | .loop o' _ j cbs  => o' = o ∧ j ≤ i ∧ i < j + cbs.length

/-- The `i`-th subscriber of `o` will be called by a loop that is under way. -/
def Awaited (c : List (Task Obs σ T)) (o : Obs) (i : Nat) : Prop := ∃ t ∈ c, t.Awaits o i

omit [DecidableEq Obs] [DecidableEq T] in
@[simp] theorem awaited_nil (o : Obs) (i : Nat) : ¬ Awaited ([] : List (Task Obs σ T)) o i := by
  rintro ⟨t, ht, _⟩
  cases ht

omit [DecidableEq Obs] [DecidableEq T] in
@[simp] theorem awaited_body (b : Body Obs σ T) (c : List (Task Obs σ T)) (o : Obs) (i : Nat) :
    Awaited (.body b :: c) o i ↔ Awaited c o i := by
  simp [Awaited, Task.Awaits]

omit [DecidableEq Obs] [DecidableEq T] in
theorem awaited_loop (o' : Obs) (arg : Arg T) (j : Nat) (cbs : List (T → Body Obs σ T))
    (c : List (Task Obs σ T)) (o : Obs) (i : Nat) :
    Awaited (.loop o' arg j cbs :: c) o i ↔
      (o' = o ∧ j ≤ i ∧ i < j + cbs.length) ∨ Awaited c o i := by
  simp [Awaited, Task.Awaits]

omit [DecidableEq Obs] [DecidableEq T] in
@[simp] theorem awaited_loop_nil (o' : Obs) (arg : Arg T) (j : Nat) (c : List (Task Obs σ T))
    (o : Obs) (i : Nat) : Awaited (.loop o' arg j [] :: c) o i ↔ Awaited c o i := by
  rw [awaited_loop]
  refine or_iff_right ?_
  rintro ⟨_, hle, hlt⟩
  exact absurd hlt (Nat.not_lt.mpr hle)

omit [DecidableEq Obs] [DecidableEq T] in
/-- A loop that calls one subscriber goes on behind it. -/
theorem awaited_called (o : Obs) (arg : Arg T) (i : Nat) (cb : T → Body Obs σ T)
    (cbs : List (T → Body Obs σ T)) (c : List (Task Obs σ T)) (b : Body Obs σ T) (o' : Obs)
    (j : Nat) :
    Awaited (.loop o arg i (cb :: cbs) :: c) o' j ↔
      (o', j) = (o, i) ∨ Awaited (.body b :: .loop o arg (i + 1) cbs :: c) o' j := by
  rw [awaited_body, awaited_loop, awaited_loop, List.length_cons]
  constructor
  · rintro (⟨rfl, hle, hlt⟩ | hrest)
    · rcases Nat.eq_or_lt_of_le hle with heq | hgt
      · exact Or.inl (by rw [heq])
      · exact Or.inr (Or.inl ⟨rfl, hgt, by omega⟩)
    · exact Or.inr (Or.inr hrest)
  · rintro (heq | ⟨rfl, hle, hlt⟩ | hrest)
    · obtain ⟨rfl, rfl⟩ := Prod.mk.inj heq
      exact Or.inl ⟨rfl, Nat.le_refl j, by omega⟩
    · exact Or.inl ⟨rfl, by omega, by omega⟩
    · exact Or.inr hrest

/-- What a step leads to. -/
inductive Stepped (s : State Obs σ T) : Act Obs σ T → State Obs σ T → Prop
  | subscribe {o cb} (hret : s.control = []) : Stepped s (.subscribe o cb) (s.subscribe o cb)
  /-- Work that is nobody's business here. -/
  | moves {a rest c} (hc : ∀ o i, Awaited c o i ↔ Awaited s.control o i) :
      Stepped s a { s with rest := rest, control := c }
  /-- An operation changes what is stored, and a new loop begins. -/
  | changes {a o v arg c} (hc : ∀ o i, Awaited c o i ↔ Awaited s.control o i) :
      Stepped s a { s.change o v with control := .loop o arg 0 (s.onChanged o) :: c }
  /-- A loop calls a subscriber. -/
  | notifies {o arg i cb cbs c} (hc : s.control = .loop o arg i (cb :: cbs) :: c) :
      Stepped s .next { s.hear o i (arg.read (s.value o)) with
        control := .body (cb (arg.read (s.value o))) :: .loop o arg (i + 1) cbs :: c }

theorem enter_stepped (inc : T → T) (s : State Obs σ T) (a : Act Obs σ T) (o : Obs) (op : Op T)
    {k : T → List (Task Obs σ T)} (hk : ∀ r o i, Awaited (k r) o i ↔ Awaited s.control o i) :
    Stepped s a (enter inc s o op k) := by
  cases op with
  | assign newVal =>
    unfold enter operatorAssign
    dsimp only
    split_ifs
    · exact .moves (hk newVal)
    · exact .changes (hk newVal)
  | increment => exact .changes (hk _)

theorem next_stepped {inc : T → T} {s s' : State Obs σ T} (h : next inc s = some s') :
    Stepped s .next s' := by
  unfold next at h
  split at h
  · cases h
  · rename_i c hc
    obtain rfl := Option.some.inj h
    exact .moves fun o i => by rw [hc, awaited_body]
  · rename_i f k c hc
    obtain rfl := Option.some.inj h
    exact .moves fun o i => by rw [hc, awaited_body, awaited_body]
  · rename_i o k c hc
    obtain rfl := Option.some.inj h
    exact .moves fun o i => by rw [hc, awaited_body, awaited_body]
  · rename_i o op k c hc
    obtain rfl := Option.some.inj h
    exact enter_stepped inc s .next o op fun r o i => by rw [hc, awaited_body, awaited_body]
  · rename_i o arg j c hc
    obtain rfl := Option.some.inj h
    exact .moves fun o i => by rw [hc, awaited_loop_nil]
  · rename_i o arg i cb cbs c hc
    obtain rfl := Option.some.inj h
    exact .notifies hc

omit [DecidableEq Obs] [DecidableEq T] in
theorem State.outermost_eq_some {s s' t : State Obs σ T} (h : s.outermost s' = some t) :
    s.control = [] ∧ s' = t := by
  unfold State.outermost at h
  split at h
  · rename_i hc
    exact ⟨hc, Option.some.inj h⟩
  · cases h

theorem step_stepped {inc : T → T} {s s' : State Obs σ T} {a : Act Obs σ T}
    (h : step inc s a = some s') : Stepped s a s' := by
  cases a with
  | subscribe o cb =>
    obtain ⟨hc, rfl⟩ := State.outermost_eq_some h
    exact .subscribe hc
  | call o op =>
    obtain ⟨hc, rfl⟩ := State.outermost_eq_some h
    exact enter_stepped inc s _ o op fun r o i => by rw [hc]
  | next => exact next_stepped h
  | other f =>
    obtain ⟨_, rfl⟩ := State.outermost_eq_some h
    exact .moves fun o i => Iff.rfl

end RtCharger.Os.Observables
