import Mathlib.Data.List.Basic

namespace StepSystem

/-!
# Step systems

A step system is a partial step function `step : σ → α → Option σ`: in state `s` the action
`a` leads to `s'` if `step s a = some s'`, and is not enabled if `step s a = none`.

* `run step s as` — the state after the actions `as`, computed;
* `Runs step ok s as s'` — the same as a relation, for runs each of whose actions meets the
  condition `ok` in the state it is taken in;
* `Runs.invariant` — what the start has and every such action keeps holds at the end;
* `Runs.simulate` — a state abstraction that matches every action by an abstract action or
  by none matches every run.
-/

variable {σ τ α β : Type}

/-- The state after the actions `as` from `s`, or `none` once one of them is not enabled. -/
def run (step : σ → α → Option σ) : σ → List α → Option σ
  | s, []      => some s
  | s, a :: as => (step s a).bind fun s' => run step s' as

/-- No condition on the actions of a run. -/
def anyAction (_ : σ) (_ : α) : Prop := True

instance (s : σ) (a : α) : Decidable (anyAction s a) := inferInstanceAs (Decidable True)

/-- `Runs step ok s as s'`: the actions `as`, each meeting `ok` in the state it is taken in,
    lead from `s` to `s'`. -/
inductive Runs (step : σ → α → Option σ) (ok : σ → α → Prop) (s : σ) : List α → σ → Prop
  | nil : Runs step ok s [] s
  | snoc {as : List α} {s' s'' : σ} {a : α} : Runs step ok s as s' → ok s' a →
      step s' a = some s'' → Runs step ok s (as ++ [a]) s''

/-- `s'` is reached from `s` by some run whose actions meet `ok`. -/
def Reachable (step : σ → α → Option σ) (ok : σ → α → Prop) (s s' : σ) : Prop :=
  ∃ as, Runs step ok s as s'

variable {step : σ → α → Option σ} {ok : σ → α → Prop} {s s' s'' : σ}

/-! ### Computed runs -/

theorem run_append (step : σ → α → Option σ) (s : σ) (as bs : List α) :
    run step s (as ++ bs) = (run step s as).bind fun s' => run step s' bs := by
  induction as generalizing s with
  | nil => rfl
  | cons a as ih =>
    cases h : step s a with
    | none => simp [run, h]
    | some s' => simp [run, h, ih]

theorem run_snoc (h : run step s as = some s') (a : α) :
    run step s (as ++ [a]) = step s' a := by
  rw [run_append, h]
  cases ha : step s' a <;> simp [run, ha]

/-- A run followed by one more run. -/
theorem Runs.append {as bs : List α} (h : Runs step ok s as s') (h' : Runs step ok s' bs s'') :
    Runs step ok s (as ++ bs) s'' := by
  induction h' with
  | nil => simpa using h
  | snoc _ hok hstep ih => rw [← List.append_assoc]; exact ih.snoc hok hstep

/-- One action is a run. -/
theorem Runs.single {a : α} (hok : ok s a) (hstep : step s a = some s') :
    Runs step ok s [a] s' :=
  Runs.nil.snoc hok hstep

/-- Every run is a run under a weaker condition. -/
theorem Runs.mono {ok' : σ → α → Prop} (hok : ∀ s a, ok s a → ok' s a) {as : List α}
    (h : Runs step ok s as s') : Runs step ok' s as s' := by
  induction h with
  | nil => exact .nil
  | snoc _ ha hstep ih => exact ih.snoc (hok _ _ ha) hstep

/-- The run that checks the condition `ok` before every action. -/
def checkedRun (step : σ → α → Option σ) (ok : σ → α → Prop) [∀ s a, Decidable (ok s a)] :
    σ → List α → Option σ :=
  run fun s a => if ok s a then step s a else none

/-- A checked run that computes is a run whose actions meet the condition. -/
theorem runs_of_checkedRun [∀ s a, Decidable (ok s a)] {as : List α}
    (h : checkedRun step ok s as = some s') : Runs step ok s as s' := by
  induction as generalizing s with
  | nil => cases h; exact .nil
  | cons a as ih =>
    obtain ⟨t, ht, hrest⟩ := Option.bind_eq_some_iff.mp h
    simp only [Option.ite_none_right_eq_some] at ht
    exact (Runs.single ht.1 ht.2).append (ih hrest)

/-- Every computed run is a run under no condition. -/
theorem runs_of_run {as : List α} (h : run step s as = some s') :
    Runs step anyAction s as s' := by
  induction as generalizing s with
  | nil => cases h; exact .nil
  | cons a as ih =>
    obtain ⟨t, ht, hrest⟩ := Option.bind_eq_some_iff.mp h
    exact (Runs.single trivial ht).append (ih hrest)

/-- A computed run of actions that are allowed in every state. -/
theorem runs_of_forall {as : List α} (hok : ∀ a ∈ as, ∀ s, ok s a)
    (h : run step s as = some s') : Runs step ok s as s' := by
  induction as generalizing s with
  | nil => cases h; exact .nil
  | cons a as ih =>
    obtain ⟨t, ht, hrest⟩ := Option.bind_eq_some_iff.mp h
    exact (Runs.single (hok a List.mem_cons_self s) ht).append
      (ih (fun b hb => hok b (List.mem_cons_of_mem a hb)) hrest)

/-- Actions that are all enabled make a run. -/
theorem runs_get {as : List α} (h : (run step s as).isSome = true) :
    Runs step anyAction s as ((run step s as).get h) :=
  runs_of_run (by simp)

/-- Actions that are all enabled and meet the condition make a run under it. -/
theorem runs_checked_get [∀ s a, Decidable (ok s a)] {as : List α}
    (h : (checkedRun step ok s as).isSome = true) :
    Runs step ok s as ((checkedRun step ok s as).get h) :=
  runs_of_checkedRun (by simp)

/-! ### Reachability -/

theorem Reachable.refl (s : σ) : Reachable step ok s s := ⟨[], .nil⟩

theorem Reachable.trans (h : Reachable step ok s s') (h' : Reachable step ok s' s'') :
    Reachable step ok s s'' := by
  obtain ⟨as, has⟩ := h
  obtain ⟨bs, hbs⟩ := h'
  exact ⟨as ++ bs, has.append hbs⟩

/-- One more action first. -/
theorem Reachable.head {a : α} (hstep : step s a = some s') (hok : ok s a)
    (h : Reachable step ok s' s'') : Reachable step ok s s'' :=
  Reachable.trans ⟨[a], .single hok hstep⟩ h

/-! ### The invariant rule -/

/-- **Invariants.**  What holds at the start and is kept by every action that meets `ok`
    holds at the end of every run whose actions meet `ok`. -/
theorem Runs.invariant (Inv : σ → Prop)
    (hstep : ∀ s a s', Inv s → ok s a → step s a = some s' → Inv s')
    {as : List α} (h : Runs step ok s as s') (hs : Inv s) : Inv s' := by
  induction h with
  | nil => exact hs
  | snoc _ hok ha ih => exact hstep _ _ _ ih hok ha

/-- A condition that follows from another one and an invariant holds along the run. -/
theorem Runs.mono_of_invariant (Inv : σ → Prop) {ok' : σ → α → Prop}
    (hstep : ∀ s a s', Inv s → ok s a → step s a = some s' → Inv s')
    (hok : ∀ s a, Inv s → ok s a → ok' s a) {as : List α} (h : Runs step ok s as s')
    (hs : Inv s) : Runs step ok' s as s' := by
  induction h with
  | nil => exact .nil
  | snoc hrun ha hnext ih => exact ih.snoc (hok _ _ (hrun.invariant Inv hstep hs) ha) hnext

/-- The same for reachable states. -/
theorem Reachable.invariant (Inv : σ → Prop)
    (hstep : ∀ s a s', Inv s → ok s a → step s a = some s' → Inv s')
    (h : Reachable step ok s s') (hs : Inv s) : Inv s' := by
  obtain ⟨as, has⟩ := h
  exact has.invariant Inv hstep hs

/-! ### The simulation rule -/

/-- One action of the concrete system, matched along the abstraction `f`: by the abstract
    action that `lab` names, or by staying where it is. -/
def Matched (stepB : τ → β → Option τ) (f : σ → τ) (lab : α → Option β) (s : σ) (a : α)
    (s' : σ) : Prop :=
  match lab a with
  | some b => stepB (f s) b = some (f s')
  | none   => f s' = f s

/-- **Simulation.**  If every action that meets `ok` is matched along `f` from the states
    satisfying `Inv`, then every run is matched by the run of the abstract actions. -/
theorem Runs.simulate (Inv : σ → Prop) (f : σ → τ) {stepB : τ → β → Option τ}
    {lab : α → Option β}
    (hstep : ∀ s a s', Inv s → ok s a → step s a = some s' → Inv s')
    (hsim : ∀ s a s', Inv s → ok s a → step s a = some s' → Matched stepB f lab s a s')
    {as : List α} (h : Runs step ok s as s') (hs : Inv s) :
    run stepB (f s) (as.filterMap lab) = some (f s') := by
  induction h with
  | nil => rfl
  | @snoc as t u a hrun hok ha ih =>
    have hm := hsim _ _ _ (hrun.invariant Inv hstep hs) hok ha
    rw [List.filterMap_append]
    cases hl : lab a with
    | some b =>
      have hb : stepB (f t) b = some (f u) := by simpa [Matched, hl] using hm
      rw [List.filterMap_cons_some hl, List.filterMap_nil, run_snoc ih, hb]
    | none =>
      have hb : f u = f t := by simpa [Matched, hl] using hm
      rw [List.filterMap_cons_none hl, List.filterMap_nil, List.append_nil, ih, hb]

end StepSystem
