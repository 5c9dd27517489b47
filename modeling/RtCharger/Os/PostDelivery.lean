import RtCharger.Os.Post
import Mathlib.Data.List.Nodup

namespace RtCharger.Os.Post

open StepSystem

/-!
# Deferred calls run once and in order

* `Logged`, `step_logged` — what a `Deliver` has invoked, followed by its `ctxQueue`, is what was
  emitted to it;
* `Delivered` — every call is of one emission, with its arguments, on the polling thread, and no
  emission is called twice or overtaken by a later one to the same `Deliver`;
* `popped_not_invoked` — an empty `Post::queue` does not mean that every emission was invoked;
* `post_delivers` — it does when the polling thread is not about to invoke either.
-/

variable {Tid α : Type} {s s' : State Tid α} {self : Tid}

/-- The emissions to one `Deliver`. -/
def ofDeliver (d : Nat) (cs : List (Context α)) : List (Context α) :=
  cs.filter fun c => decide (c.deliver = d)

@[simp] theorem ofDeliver_append (d : Nat) (cs cs' : List (Context α)) :
    ofDeliver d (cs ++ cs') = ofDeliver d cs ++ ofDeliver d cs' :=
  List.filter_append cs cs'

@[simp] theorem ofDeliver_self (c : Context α) : ofDeliver c.deliver [c] = [c] := by
  simp [ofDeliver]

theorem ofDeliver_other {c : Context α} {d : Nat} (hne : d ≠ c.deliver) : ofDeliver d [c] = [] := by
  simp [ofDeliver, Ne.symm hne]

/-- The emissions whose function was called, in the order of the calls. -/
def State.calls (s : State Tid α) : List (Context α) := s.invoked.map Prod.snd

/-! ### Each `Deliver` works off its contexts in order -/

/-- The logs agree with the `ctxQueue`s, emissions are numbered, and `p` makes all calls. -/
structure Logged (p : Tid) (s : State Tid α) : Prop where
  order : ∀ d, ofDeliver d s.calls ++ s.ctxQueue d = ofDeliver d s.pushed
  ids : s.pushed.map Context.id = List.range s.pushed.length
  thread : ∀ x ∈ s.invoked, x.1 = p

theorem initial_logged (self : Tid) : Logged self (initial Tid α) :=
  ⟨fun _ => rfl, rfl, by simp [initial]⟩

theorem Logged.push (h : Logged self s) (t : Tid) (d : Nat) (a : α) :
    Logged self (s.pushContext t d a) := by
  refine ⟨?_, ?_, h.thread⟩
  · intro d'
    show ofDeliver d' s.calls ++ Function.update s.ctxQueue d _ d' = ofDeliver d' (s.pushed ++ _)
    rw [ofDeliver_append, ← h.order d']
    by_cases hd : d' = d
    · subst hd
      simp [ofDeliver]
    · rw [Function.update_of_ne hd, ofDeliver_other hd, List.append_nil]
  · show (s.pushed ++ [_]).map Context.id = List.range (s.pushed ++ [_]).length
    simp [h.ids, List.range_succ]

/-- The context that `invoke` takes is one of its `Deliver`. -/
theorem Logged.deliver_eq (h : Logged self s) {d : Nat} {c : Context α}
    (hc : c ∈ s.ctxQueue d) : c.deliver = d := by
  have hmem : c ∈ ofDeliver d s.pushed := by
    rw [← h.order d]
    exact List.mem_append_right _ hc
  simpa using (List.mem_filter.mp hmem).2

theorem Logged.invoke (h : Logged self s) (hp : Paired s) {d : Nat} (hd : s.front = some d) :
    Logged self (s.invoke self d).2 := by
  obtain ⟨c, cs, hcs, heq⟩ := hp.invoke_eq self hd
  have hc : c.deliver = d := h.deliver_eq (by rw [hcs]; exact List.mem_cons_self)
  rw [heq]
  refine ⟨?_, h.ids, ?_⟩
  · intro d'
    show ofDeliver d' ((s.invoked ++ [(self, c)]).map Prod.snd) ++ Function.update s.ctxQueue d cs d' = _
    rw [List.map_append, ofDeliver_append, ← h.order d']
    by_cases hne : d' = d
    · -- the oldest context of `d` moves from the queue to the calls
      subst hne
      subst hc
      simp [hcs, State.calls]
    · rw [Function.update_of_ne hne, List.map_singleton, ofDeliver_other (by rw [hc]; exact hne),
        List.append_nil, State.calls]
  · intro x hx
    rcases List.mem_append.mp hx with hx | hx
    · exact h.thread x hx
    · rw [List.mem_singleton.mp hx]

theorem step_logged [DecidableEq Tid] {a : Act Tid α} (hl : Logged self s) (hp : Paired s)
    (h : step self s a = some s') : Logged self s' := by
  cases step_stepped h with
  | push => exact hl.push _ _ _
  | enqueue => exact ⟨hl.order, hl.ids, hl.thread⟩
  | pop hpop =>
    obtain ⟨_, _, _, rfl⟩ := pop_some hpop
    exact ⟨hl.order, hl.ids, hl.thread⟩
  | invoke hd => exact hl.invoke hp hd

/-! ### What a run delivers -/

/-- The calls made so far: no emission is called twice, every call is of an emission with its
    arguments and by the polling thread `p`, the calls of a `Deliver` are in the order of the
    emissions to it, and `invoke` never finds its `ctxQueue` empty. -/
structure Delivered (p : Tid) (s : State Tid α) : Prop where
  once : (s.calls.map Context.id).Nodup
  args : ∀ c ∈ s.calls, c ∈ s.pushed
  thread : ∀ x ∈ s.invoked, x.1 = p
  order : ∀ d, ofDeliver d s.calls <+: ofDeliver d s.pushed
  nonempty : ∀ d, s.front = some d → s.ctxQueue d ≠ []

/-- With no emitter between its two pushes and `Post::queue` empty, every emission was called. -/
def CompleteWhenEmpty (s : State Tid α) : Prop :=
  s.midway = [] → s.queue = [] → ∀ c ∈ s.pushed, c ∈ s.calls

/-- The same if, besides, the polling thread has not popped a `Deliver` that it has not invoked
    yet. -/
def CompleteWhenIdle (s : State Tid α) : Prop :=
  s.midway = [] → s.queue = [] → s.front = none → ∀ c ∈ s.pushed, c ∈ s.calls

/-- **Popped is not invoked.**  After one emission the polling thread has popped the `Deliver`;
    no emitter is under way and the queue is empty, but the call is still to come. -/
theorem popped_not_invoked : ∃ as s, Runs (step 0) anyAction (initial Nat Nat) as s ∧
    ¬ (Delivered 0 s ∧ CompleteWhenEmpty s) := by
  refine ⟨[.push 1 7 5, .enqueue 1, .pop], _, runs_get (by rfl), ?_⟩
  rintro ⟨_, hcomplete⟩
  have hcall := hcomplete rfl rfl ⟨0, 7, 5⟩ (by decide)
  revert hcall
  decide

/-- Emissions are told apart by their numbers. -/
theorem Logged.pushed_nodup (h : Logged self s) : (s.pushed.map Context.id).Nodup := by
  rw [h.ids]
  exact List.nodup_range

/-- The calls of a `Deliver` are the first emissions to it. -/
theorem Logged.in_order (h : Logged self s) (d : Nat) : ofDeliver d s.calls <+: ofDeliver d s.pushed :=
  ⟨s.ctxQueue d, h.order d⟩

theorem Logged.args (h : Logged self s) : ∀ c ∈ s.calls, c ∈ s.pushed := by
  intro c hc
  have hmem : c ∈ ofDeliver c.deliver s.calls := List.mem_filter.mpr ⟨hc, by simp⟩
  exact List.mem_of_mem_filter ((h.in_order c.deliver).subset hmem)

/-- No emission is called twice: its `Deliver` would have been given it twice. -/
theorem Logged.once (h : Logged self s) : (s.calls.map Context.id).Nodup := by
  have hpushed : s.pushed.Nodup := h.pushed_nodup.of_map _
  have hcalls : s.calls.Nodup := by
    rw [List.nodup_iff_sublist]
    intro c hc
    have hto : [c, c].Sublist (ofDeliver c.deliver s.calls) := by
      simpa [ofDeliver] using hc.filter fun c' => decide (c'.deliver = c.deliver)
    have hsub := (hto.trans (h.in_order c.deliver).sublist).trans List.filter_sublist
    exact List.nodup_iff_sublist.mp hpushed c hsub
  refine hcalls.map_on ?_
  intro c hc c' hc' hid
  exact List.inj_on_of_nodup_map h.pushed_nodup (h.args c hc) (h.args c' hc') hid

/-- When no `Deliver` is due any more, all emissions were called. -/
theorem Logged.complete (h : Logged self s) (hp : Paired s) (hdue : ∀ d, s.due d = 0)
    {c : Context α} (hc : c ∈ s.pushed) : c ∈ s.calls := by
  -- a context still in its queue would make its `Deliver` due
  have hnil : s.ctxQueue c.deliver = [] := List.eq_nil_of_length_eq_zero (by rw [hp, hdue])
  have horder := h.order c.deliver
  rw [hnil, List.append_nil] at horder
  have hmem : c ∈ ofDeliver c.deliver s.pushed := List.mem_filter.mpr ⟨hc, by simp⟩
  rw [← horder] at hmem
  exact List.mem_of_mem_filter hmem

variable [DecidableEq Tid]

/-- What holds along every run. -/
theorem runs_logged {as : List (Act Tid α)}
    (h : Runs (step self) anyAction (initial Tid α) as s) : Paired s ∧ Logged self s := by
  refine h.invariant (fun s => Paired s ∧ Logged self s) ?_
    ⟨initial_paired Tid α, initial_logged self⟩
  rintro s a s' ⟨hp, hl⟩ _ hs
  exact ⟨step_paired hp hs, step_logged hl hp hs⟩

/-- **Deferred calls run exactly once and in order**, for any number of emitters and
    `Deliver`s. -/
theorem post_delivers {as : List (Act Tid α)}
    (h : Runs (step self) anyAction (initial Tid α) as s) :
    Delivered self s ∧ CompleteWhenIdle s := by
  obtain ⟨hp, hl⟩ := runs_logged h
  refine ⟨⟨hl.once, hl.args, hl.thread, hl.in_order, fun d hd => hp.ctxQueue_ne_nil hd⟩, ?_⟩
  intro hmid hq hf c hc
  exact hl.complete hp (fun d => by simp [State.due, hmid, hq, hf]) hc

/-- Two emitters to one `Deliver` enqueue it in the other order than they pushed their contexts. -/
theorem post_delivers_crossed : ∃ s, Runs (step 0) anyAction (initial Nat Nat)
      [.push 1 7 5, .push 2 7 6, .enqueue 2, .pop, .invoke, .enqueue 1, .pop, .invoke] s ∧
    (Delivered 0 s ∧ CompleteWhenIdle s) :=
  ⟨_, runs_get (by rfl), post_delivers (runs_get (by rfl))⟩

end RtCharger.Os.Post
