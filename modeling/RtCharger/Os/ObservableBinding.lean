import RtCharger.Os.Observables
import Mathlib.Data.List.Induction
import Mathlib.Logic.Relation

namespace RtCharger.Os.Observables

open StepSystem

/-!
# Bound observables

`b = a` subscribes a closure to `a` that assigns to `b` what `b` holds: nothing is ever passed on
along a binding.

* `Entry` — what is subscribed to an observable: a function, or another observable;
* `Bound` — bound directly or through a chain;
* `EachPropagated` — every assignment of a sequence reaches all that is bound;
* `bound_equal_iff` — exactly when it does.
-/

/-- A subscription: of a function on the rest of the program's state, which does not operate on
    observables itself, or of an observable by `operator=(Observable<T>& other)`. -/
inductive Entry (Obs σ T : Type) where
  | subscriber (f : T → σ → σ)
  | binding (this : Obs)

/-- The closure that is subscribed. -/
def Entry.closure {Obs σ T : Type} : Entry Obs σ T → T → Body Obs σ T
  | .subscriber f => fun v => .other (f v) fun _ => .done
  | .binding this => bound this

variable {Obs σ T : Type} [DecidableEq Obs] [DecidableEq T] {inc : T → T} {s s' : State Obs σ T}

/-- An arrangement: the subscriptions, in order, each with the observable it is made to. -/
abbrev Arrangement (Obs σ T : Type) : Type := List (Obs × Entry Obs σ T)

/-- The program that makes it. -/
def setUp (arr : Arrangement Obs σ T) : List (Act Obs σ T) :=
  arr.map fun x => .subscribe x.1 x.2.closure

/-- The subscriptions to one observable. -/
def entries (arr : Arrangement Obs σ T) (o : Obs) : List (Entry Obs σ T) :=
  (arr.filter fun x => decide (x.1 = o)).map Prod.snd

/-- `this` is bound to `o`, directly or through a chain. -/
def Bound (arr : Arrangement Obs σ T) (this o : Obs) : Prop :=
  Relation.TransGen (fun this o => Entry.binding this ∈ entries arr o) this o

/-- The assignment `o = v` in `s` returns, in `s'`. -/
def Returns (inc : T → T) (s : State Obs σ T) (o : Obs) (v : T) (s' : State Obs σ T) : Prop :=
  ∃ n, run (step inc) s (.call o (.assign v) :: List.replicate n .next) = some s' ∧
    s'.control = []

/-- If `o = v` changes `o`, all that is bound to it holds `v` afterwards, and its subscribers
    have been notified of `v` unless it was there before. -/
def Propagated (arr : Arrangement Obs σ T) (s : State Obs σ T) (o : Obs) (v : T)
    (s' : State Obs σ T) : Prop :=
  s.value o ≠ v → ∀ this, Bound arr this o → s'.value this = v ∧
    (s.value this ≠ v → ∀ i f, (entries arr this)[i]? = some (.subscriber f) →
      v ∈ (s'.heard (this, i)).drop (s.heard (this, i)).length)

/-- Every assignment of a sequence returns and reaches all that is bound. -/
def EachPropagated (inc : T → T) (arr : Arrangement Obs σ T) : State Obs σ T → List (Obs × T) → Prop
  | _, []           => True
  | s, (o, v) :: as =>
    ∃ s', Returns inc s o v s' ∧ Propagated arr s o v s' ∧ EachPropagated inc arr s' as

/-- Before every assignment that changes an observable, all that is bound to it holds the new
    value already. -/
def AlreadyEqual (arr : Arrangement Obs σ T) : (Obs → T) → List (Obs × T) → Prop
  | _, []               => True
  | value, (o, v) :: as =>
    (value o ≠ v → ∀ this, Bound arr this o → value this = v) ∧
      AlreadyEqual arr (Function.update value o v) as

/-! ### One assignment -/

/-- Between two operations, with the subscriptions of the arrangement. -/
structure Arranged (arr : Arrangement Obs σ T) (s : State Obs σ T) : Prop where
  control : s.control = []
  onChanged : ∀ o, s.onChanged o = (entries arr o).map Entry.closure

/-- The state after `n` steps of what is under way. -/
def nexts (inc : T → T) (n : Nat) (s : State Obs σ T) : Option (State Obs σ T) :=
  run (step inc) s (List.replicate n .next)

theorem nexts_add (n m : Nat) (h : nexts inc n s = some s') :
    nexts inc (n + m) s = nexts inc m s' := by
  have hrun : run (step inc) s (List.replicate n .next) = some s' := h
  rw [nexts, nexts, ← List.replicate_append_replicate, run_append, hrun]
  rfl

/-- A subscriber that is called leaves the observables as they are: a function does not touch
    them, and a binding assigns what is there. -/
theorem nexts_closure (inc : T → T) {o : Obs} {arg : Arg T} {i : Nat} {e : Entry Obs σ T}
    {cbs : List (T → Body Obs σ T)} {c : List (Task Obs σ T)}
    (hc : s.control = .loop o arg i (e.closure :: cbs) :: c) :
    ∃ n s', nexts inc n s = some s' ∧ s'.control = .loop o arg (i + 1) cbs :: c ∧
      s'.value = s.value ∧ s'.onChanged = s.onChanged := by
  cases e with
  | subscriber f =>
    refine ⟨3, { s.hear o i (arg.read (s.value o)) with
      rest    := f (arg.read (s.value o)) s.rest
      control := .loop o arg (i + 1) cbs :: c }, ?_, rfl, rfl, rfl⟩
    simp [nexts, run, step, next, hc, State.hear, Entry.closure, List.replicate_succ]
  | binding this =>
    -- called, reads its value, assigns it, returns
    refine ⟨4, { s.hear o i (arg.read (s.value o)) with
      control := .loop o arg (i + 1) cbs :: c }, ?_, rfl, rfl, rfl⟩
    simp [nexts, run, step, next, hc, enter, operatorAssign, State.hear, Entry.closure, bound,
      List.replicate_succ]

/-- The loop over the subscribers of an arrangement. -/
theorem nexts_loop (inc : T → T) {o : Obs} {arg : Arg T} {c : List (Task Obs σ T)}
    (es : List (Entry Obs σ T)) {i : Nat} (hc : s.control = .loop o arg i (es.map Entry.closure) :: c) :
    ∃ n s', nexts inc n s = some s' ∧ s'.control = c ∧ s'.value = s.value ∧
      s'.onChanged = s.onChanged := by
  induction es generalizing s i with
  | nil =>
    refine ⟨1, { s with control := c }, ?_, rfl, rfl, rfl⟩
    simp only [List.map_nil] at hc
    simp [nexts, run, step, next, hc]
  | cons e es ih =>
    obtain ⟨n, t, hn, hct, hvalue, hsubs⟩ := nexts_closure inc hc
    obtain ⟨m, u, hm, hcu, hvalue', hsubs'⟩ := ih hct
    exact ⟨n + m, u, by rw [nexts_add n m hn, hm], hcu, hvalue'.trans hvalue, hsubs'.trans hsubs⟩

/-- **An assignment returns**, and has changed the observable that is assigned to and no
    other. -/
theorem Arranged.returns {arr : Arrangement Obs σ T} (h : Arranged arr s) (inc : T → T) (o : Obs)
    (v : T) :
    ∃ s', Returns inc s o v s' ∧ Arranged arr s' ∧ s'.value = Function.update s.value o v := by
  have hcall : step inc s (.call o (.assign v)) = some (operatorAssign s o v fun _ => []) := by
    rw [step, State.outermost, h.control]
    rfl
  by_cases hsame : s.value o = v
  · refine ⟨s, ⟨0, ?_, h.control⟩, h, ?_⟩
    · rw [run, hcall, operatorAssign, if_pos hsame, ← h.control]
      rfl
    · rw [← hsame, Function.update_eq_self]
  · obtain ⟨n, s', hn, hc, hvalue, hsubs⟩ := nexts_loop inc
      (s := { s.change o v with control := [.loop o (.newVal v) 0 (s.onChanged o)] })
      (entries arr o) (by rw [h.onChanged])
    refine ⟨s', ⟨n, ?_, hc⟩, ⟨hc, ?_⟩, hvalue⟩
    · rw [run, hcall, operatorAssign, if_neg hsame]
      exact hn
    · rw [hsubs]
      exact h.onChanged

/-- Nothing is left to do after a return. -/
theorem nexts_of_returned {n : Nat} (hc : s.control = []) (h : nexts inc n s = some s') :
    n = 0 := by
  cases n with
  | zero => rfl
  | succ n =>
    have hnone : step inc s .next = none := by rw [step, next, hc]
    rw [nexts, List.replicate_succ, run, hnone] at h
    cases h

/-- What an operation returns with is determined. -/
theorem Returns.unique {o : Obs} {v : T} {s₁ s₂ : State Obs σ T} (h₁ : Returns inc s o v s₁)
    (h₂ : Returns inc s o v s₂) : s₁ = s₂ := by
  obtain ⟨n, hn, hc₁⟩ := h₁
  obtain ⟨m, hm, hc₂⟩ := h₂
  obtain ⟨t, ht, hn⟩ := Option.bind_eq_some_iff.mp hn
  obtain ⟨t', ht', hm⟩ := Option.bind_eq_some_iff.mp hm
  obtain rfl : t = t' := Option.some.inj (ht.symm.trans ht')
  have hnext : nexts inc n t = some s₁ := hn
  have hnext' : nexts inc m t = some s₂ := hm
  -- the shorter of the two runs ends where nothing is left to do
  rcases Nat.le_total n m with hle | hle
  · obtain ⟨k, rfl⟩ := Nat.exists_eq_add_of_le hle
    rw [nexts_add n k hnext] at hnext'
    obtain rfl := nexts_of_returned hc₁ hnext'
    exact Option.some.inj hnext'
  · obtain ⟨k, rfl⟩ := Nat.exists_eq_add_of_le hle
    rw [nexts_add m k hnext'] at hnext
    obtain rfl := nexts_of_returned hc₂ hnext
    exact (Option.some.inj hnext).symm

/-! ### Sequences of assignments -/

omit [DecidableEq T] in
/-- What is bound to an observable keeps its value while that one is assigned to. -/
theorem propagated_iff {arr : Arrangement Obs σ T} (hacyclic : ∀ o, ¬ Bound arr o o) {o : Obs}
    {v : T} (hvalue : s'.value = Function.update s.value o v) :
    Propagated arr s o v s' ↔
      (s.value o ≠ v → ∀ this, Bound arr this o → s.value this = v) := by
  have hkept : ∀ this, Bound arr this o → s'.value this = s.value this := by
    intro this hbound
    have hne : this ≠ o := by
      rintro rfl
      exact hacyclic this hbound
    rw [hvalue, Function.update_of_ne hne]
  constructor
  · intro h hchange this hbound
    rw [← hkept this hbound]
    exact (h hchange this hbound).1
  · intro h hchange this hbound
    have heq := h hchange this hbound
    exact ⟨(hkept this hbound).trans heq, fun hne => absurd heq hne⟩

/-- **Every sequence of assignments** in an arrangement that has been made. -/
theorem Arranged.eachPropagated_iff {arr : Arrangement Obs σ T}
    (hacyclic : ∀ o, ¬ Bound arr o o) (inc : T → T) (as : List (Obs × T)) (h : Arranged arr s) :
    EachPropagated inc arr s as ↔ AlreadyEqual arr s.value as := by
  induction as generalizing s with
  | nil => exact Iff.rfl
  | cons a as ih =>
    obtain ⟨o, v⟩ := a
    obtain ⟨t, ht, harr, hvalue⟩ := h.returns inc o v
    have hprop := propagated_iff hacyclic hvalue
    have hrest := ih harr
    rw [hvalue] at hrest
    constructor
    · rintro ⟨t', ht', hp, hmore⟩
      obtain rfl := ht'.unique ht
      exact ⟨hprop.mp hp, hrest.mp hmore⟩
    · rintro ⟨hp, hmore⟩
      exact ⟨t, ht, hprop.mpr hp, hrest.mpr hmore⟩

/-- The program makes the arrangement. -/
theorem run_setUp (inc : T → T) (arr : Arrangement Obs σ T) (value : Obs → T) (rest : σ) :
    ∃ s, run (step inc) (initial value rest) (setUp arr) = some s ∧ Arranged arr s ∧
      s.value = value := by
  induction arr using List.reverseRecOn with
  | nil => exact ⟨initial value rest, rfl, ⟨rfl, fun _ => rfl⟩, rfl⟩
  | append_singleton arr x ih =>
    obtain ⟨s, hrun, harr, hvalue⟩ := ih
    have hstep : step inc s (.subscribe x.1 x.2.closure) = some (s.subscribe x.1 x.2.closure) := by
      rw [step, State.outermost, harr.control]
    refine ⟨s.subscribe x.1 x.2.closure, ?_, ⟨harr.control, ?_⟩, hvalue⟩
    · rw [setUp, List.map_append, List.map_singleton]
      exact (run_snoc hrun _).trans hstep
    · intro o
      by_cases ho : x.1 = o
      · subst ho
        simp [State.subscribe, entries, harr.onChanged]
      · simp [State.subscribe, entries, harr.onChanged, ho, Ne.symm ho]

omit [DecidableEq T] in
theorem mem_entries {arr : Arrangement Obs σ T} {o : Obs} {e : Entry Obs σ T} :
    e ∈ entries arr o ↔ (o, e) ∈ arr := by
  simp [entries]

omit [DecidableEq T] in
/-- Bindings along which a rank increases do not go round. -/
theorem not_bound_self {arr : Arrangement Obs σ T} (rank : Obs → Nat)
    (hrank : ∀ o this, (o, Entry.binding this) ∈ arr → rank o < rank this) (o : Obs) :
    ¬ Bound arr o o := by
  have hlt : ∀ this, Bound arr this o → rank o < rank this := by
    intro this hbound
    induction hbound using Relation.TransGen.head_induction_on with
    | single h => exact hrank _ _ (mem_entries.mp h)
    | head h _ ih => exact Nat.lt_trans ih (hrank _ _ (mem_entries.mp h))
  exact fun hbound => absurd (hlt o hbound) (Nat.lt_irrefl _)

/-- **Bound observables stay equal** exactly if everything that is bound to an observable, directly
    or through a chain, holds the new value already before every assignment that changes it. -/
theorem bound_equal_iff (inc : T → T) (arr : Arrangement Obs σ T)
    (hacyclic : ∀ o, ¬ Bound arr o o) (value : Obs → T) (rest : σ) (as : List (Obs × T)) :
    ∃ s, run (step inc) (initial value rest) (setUp arr) = some s ∧
      (EachPropagated inc arr s as ↔ AlreadyEqual arr value as) := by
  obtain ⟨s, hrun, harr, hvalue⟩ := run_setUp inc arr value rest
  refine ⟨s, hrun, ?_⟩
  rw [← hvalue]
  exact harr.eachPropagated_iff hacyclic inc as

/-- `1` is bound to `0` and `2` to `1`, and `2` has a subscriber that logs. -/
def chain : Arrangement (Fin 3) (List Nat) Nat :=
  [(0, .binding 1), (1, .binding 2), (2, .subscriber fun v log => log ++ [v])]

theorem chain_acyclic (o : Fin 3) : ¬ Bound chain o o := by
  refine not_bound_self (fun o => o.val) ?_ o
  intro o this hmem
  simp only [chain, List.mem_cons, Prod.mk.injEq, Entry.binding.injEq, reduceCtorEq, and_false,
    List.not_mem_nil, or_false] at hmem
  rcases hmem with ⟨rfl, rfl⟩ | ⟨rfl, rfl⟩ <;> decide

/-- The end of the chain is assigned to first. -/
theorem bound_equal_iff_chain :
    ∃ s, run (step Nat.succ) (initial (fun _ => 0) []) (setUp chain) = some s ∧
      (EachPropagated Nat.succ chain s [(2, 5), (1, 5), (0, 5)] ↔
        AlreadyEqual chain (fun _ => 0) [(2, 5), (1, 5), (0, 5)]) :=
  bound_equal_iff Nat.succ chain chain_acyclic (fun _ => 0) [] [(2, 5), (1, 5), (0, 5)]

/-- The beginning of the chain is assigned to: the rest keeps what it had. -/
theorem bound_unchanged :
    (∀ o, ¬ Bound chain o o) ∧ Bound chain 1 0 ∧
      ∃ s s', run (step Nat.succ) (initial (fun _ => 0) []) (setUp chain) = some s ∧
        Returns Nat.succ s 0 5 s' ∧ s'.value 0 = 5 ∧ s'.value 1 = 0 ∧
        ¬ EachPropagated Nat.succ chain s [(0, 5)] := by
  obtain ⟨s, hrun, harr, hvalue⟩ := run_setUp Nat.succ chain (fun _ => 0) []
  obtain ⟨s', hs', _, hvalue'⟩ := harr.returns Nat.succ 0 5
  rw [hvalue] at hvalue'
  have hbound : Bound chain 1 0 := .single (mem_entries.mpr (List.mem_cons_self ..))
  refine ⟨chain_acyclic, hbound, s, s', hrun, hs', by rw [hvalue']; rfl, by rw [hvalue']; rfl, ?_⟩
  rw [harr.eachPropagated_iff chain_acyclic, hvalue]
  rintro ⟨heq, _⟩
  exact absurd (heq (by decide) 1 hbound) (by decide)

end RtCharger.Os.Observables
