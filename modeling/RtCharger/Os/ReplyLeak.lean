import RtCharger.Os.ReplyInvariant

namespace RtCharger.Os.Reply

open SharedHeap StepSystem

/-!
# Do temporary `Deliver`s accumulate?

A temporary `Deliver` is registered when it is made and removed by the call of its function.  When
an emission has no subscriber, nobody replies and the function is never called.

* `deliver_leaked` — an emission without subscribers leaves its `Deliver` registered for good;
* `Settled` — every subscriber has replied and every queued `Deliver` was polled;
* `no_leak_iff` — then `Post::delivers` is empty exactly when every emission had a subscriber.
-/

variable {Tid : Type} [DecidableEq Tid] {p : Tid} {s s' : State Tid}

/-- Nothing is under way: no emission, no reply to come, nothing queued, nothing polled. -/
structure Settled (s : State Tid) : Prop where
  frames : s.frames = []
  pending : s.pending = []
  midway : s.post.midway = []
  queue : s.post.queue = []
  front : s.front = none

/-- **A leaked `Deliver`.**  An emission on a `Signals` without subscribers. -/
theorem deliver_leaked : ∃ as s, Runs (step 0) anyAction (initial Nat) as s ∧
    Settled s ∧ s.delivers ≠ [] := by
  refine ⟨[.emit 1 [], .leave 1 0], _, runs_get (by rfl), ⟨rfl, rfl, rfl, rfl, rfl⟩, ?_⟩
  decide

/-! ### Who is to reply -/

/-- Only a new emission changes the numbers of replies. -/
theorem step_replies {a : Act Tid} (h : Inv p s) (hs : step p s a = some s') :
    (∃ t subs, s' = s.begin t subs ∧ (a = .emit t subs ∨ a = .exec t ∧ subs = [.plain])) ∨
      (s'.replies = s.replies ∧ s'.heap.next = s.heap.next ∧ ∀ t subs, a ≠ .emit t subs) := by
  cases step_stepped h.paired hs with
  | emit => exact .inl ⟨_, _, rfl, .inl rfl⟩
  | exec => exact .inl ⟨_, _, rfl, .inr ⟨rfl, rfl⟩⟩
  | invoke =>
    refine .inr ⟨rfl, ?_, by simp⟩
    show (s.heap.releaseMany _ _).next = s.heap.next
    exact next_releaseMany _ _ _
  | _ => exact .inr ⟨rfl, rfl, by simp⟩

omit [DecidableEq Tid] in
/-- A new emission, and nothing else, adds a `Deliver`: the one it makes is to be replied to if
    it has a subscriber. -/
theorem begin_replies (s : State Tid) (t : Tid) (subs : List Subscriber) :
    (∀ d, d < (s.begin t subs).heap.next → (s.begin t subs).replies d ≠ 0) ↔
      (∀ d, d < s.heap.next → s.replies d ≠ 0) ∧ subs ≠ [] := by
  have hself : (s.begin t subs).replies s.heap.next = subs.length := Function.update_self _ _ _
  have hother : ∀ d, d < s.heap.next → (s.begin t subs).replies d = s.replies d :=
    fun d hd => Function.update_of_ne (Nat.ne_of_lt hd) _ _
  have hnext : (s.begin t subs).heap.next = s.heap.next + 1 := rfl
  rw [hnext]
  constructor
  · intro hall
    refine ⟨fun d hd => ?_, ?_⟩
    · rw [← hother d hd]
      exact hall d (Nat.lt_succ_of_lt hd)
    · rintro rfl
      exact hall s.heap.next (Nat.lt_succ_self _) hself
  · rintro ⟨hall, hsubs⟩ d hd
    by_cases hlt : d < s.heap.next
    · rw [hother d hlt]
      exact hall d hlt
    · obtain rfl : d = s.heap.next := by omega
      rw [hself]
      exact fun hz => hsubs (List.eq_nil_of_length_eq_zero hz)

/-- Every `Deliver` made is to be replied to exactly when every emission had a subscriber. -/
theorem runs_replies {as : List (Act Tid)} (h : Runs (step p) anyAction (initial Tid) as s) :
    (∀ d, d < s.heap.next → s.replies d ≠ 0) ↔ ∀ t subs, Act.emit t subs ∈ as → subs ≠ [] := by
  induction h with
  | nil => simp [initial, SharedHeap.empty]
  | @snoc as s s' a hrun _ hs ih =>
    have hsplit : (∀ t subs, Act.emit t subs ∈ as ++ [a] → subs ≠ []) ↔
        (∀ t subs, Act.emit t subs ∈ as → subs ≠ []) ∧ ∀ t subs, a = .emit t subs → subs ≠ [] := by
      simp only [List.mem_append, List.mem_singleton, or_imp, forall_and, eq_comm]
    rw [hsplit, ← ih]
    rcases step_replies (runs_inv hrun) hs with ⟨t, subs, rfl, ha⟩ | ⟨hrep, hnext, hno⟩
    · -- an emission adds a `Deliver`, an `exec` one with a reply
      rw [begin_replies]
      refine and_congr_right fun _ => ?_
      rcases ha with rfl | ⟨rfl, rfl⟩
      · simp
      · simp
    · rw [hrep, hnext]
      exact ⟨fun hd => ⟨hd, fun t subs ha => absurd ha (hno t subs)⟩, fun hd => hd.1⟩

/-! ### What stays registered -/

omit [DecidableEq Tid] in
/-- When nothing is under way, the function was called for every reply. -/
theorem Settled.called_eq (hs : Settled s) (h : Inv p s) (d : Nat) : s.called d = s.replies d := by
  have hnone : s.post.front = none := by
    cases hf : s.post.front with
    | none => rfl
    | some d' =>
      have hsome := h.front d' hf
      rw [hs.front] at hsome
      cases hsome
  have hbal := h.balance d
  simp only [State.owed, Post.State.due, remaining, hs.frames, hs.pending, hs.midway, hs.queue,
    hnone, List.map_nil, List.sum_nil, List.count_nil, Option.toList_none] at hbal
  omega

/-- **Temporary `Deliver`s do not accumulate exactly when every emission has a subscriber**: in
    every run of `Task::exec`s and emissions that has come to rest, whatever the functions and
    subscribers returned or threw. -/
theorem no_leak_iff {as : List (Act Tid)} (h : Runs (step p) anyAction (initial Tid) as s)
    (hs : Settled s) : s.delivers = [] ↔ ∀ t subs, Act.emit t subs ∈ as → subs ≠ [] := by
  have hinv := runs_inv h
  rw [← runs_replies h, List.eq_nil_iff_forall_not_mem]
  refine forall_congr' fun d => ?_
  -- registered means made and never called, and every reply was called for
  rw [hinv.registered d, hs.called_eq hinv d, not_and]

/-- An emission with a deferred subscriber, which throws, and an `exec` whose function throws. -/
theorem no_leak_worked_off : ∃ s, Runs (step 0) anyAction (initial Nat)
      [.emit 1 [.deferred], .call 1 0 .returned, .leave 1 0, .reply 2 0 .threw, .enqueue 2,
        .exec 3, .call 3 1 .returned, .enqueue 3, .leave 3 1, .pop, .invoke .returned, .done, .pop,
        .invoke .threw, .done] s ∧ s.delivers = [] :=
  ⟨_, runs_get (by rfl),
    (no_leak_iff (runs_get (by rfl)) ⟨rfl, rfl, rfl, rfl, rfl⟩).mpr (by simp)⟩

end RtCharger.Os.Reply
