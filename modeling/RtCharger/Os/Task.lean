import RtCharger.Os.PostDelivery

namespace RtCharger.Os.Task

open StepSystem Post

/-!
# `Task::exec`

A `Task` is a thread that polls its own `Post`.  `exec` calls the function at once if the thread
is that of the task, and otherwise posts it: `runOn(post(…))` makes a `Deliver` of its own for it
and emits to that once.  So the functions are called one after the other, and those of one thread
in the order of its calls of `exec`, although two threads may enqueue theirs in either order.

* `exec` — what it does, on either thread;
* `Execs` — the emissions are those of `exec`;
* `InOrder`, `step_inOrder` — the functions posted by one thread, wherever they are;
* `runs_inOrder` — what holds along every run.
-/

variable {Tid J : Type}

/-- What a thread does in `Task::exec`: `cb` is called, or is the function of a new `Deliver`, to
    which it emits; it is named with the thread here. -/
def exec [DecidableEq Tid] (self t : Tid) (deliver : Nat) (cb : J) : J ⊕ Act Tid (Tid × J) :=
  if t = self then .inl cb else .inr (.push t deliver (t, cb))

/-- The contexts of the thread. -/
def ofThread [DecidableEq Tid] (t : Tid) (cs : List (Context (Tid × J))) :
    List (Context (Tid × J)) :=
  cs.filter fun c => decide (c.args.1 = t)

/-- The functions that were called, in order. -/
def called (s : State Tid (Tid × J)) : List J := s.calls.map fun c => c.args.2

variable [DecidableEq Tid]

/-- The emissions are those of `exec` on other threads, each with a `Deliver` that is new. -/
def Execs (self : Tid) (s : State Tid (Tid × J)) : Act Tid (Tid × J) → Prop
  | .push t d (u, cb) => exec self t d cb = .inr (.push t d (u, cb)) ∧
    ∀ c ∈ s.pushed, c.deliver ≠ d
  | _                 => True

instance [DecidableEq J] (self : Tid) (s : State Tid (Tid × J)) :
    (a : Act Tid (Tid × J)) → Decidable (Execs self s a)
  | .push t d (u, cb) =>
    inferInstanceAs (Decidable (exec self t d cb = .inr (.push t d (u, cb)) ∧ _))
  | .enqueue _        => isTrue trivial
  | .pop              => isTrue trivial
  | .invoke           => isTrue trivial

theorem execs_push {self t u : Tid} {s : State Tid (Tid × J)} {d : Nat} {cb : J}
    (h : Execs self s (.push t d (u, cb))) : t ≠ self ∧ u = t ∧ ∀ c ∈ s.pushed, c.deliver ≠ d := by
  obtain ⟨hexec, hnew⟩ := h
  unfold exec at hexec
  split_ifs at hexec with hself
  · simp only [Sum.inr.injEq, Act.push.injEq, Prod.mk.injEq, true_and, and_true] at hexec
    exact ⟨hself, hexec.symm, hnew⟩

/-! ### The functions that one thread has posted -/

/-- What is enqueued and not called yet, in order. -/
def pending (s : State Tid (Tid × J)) : List (Context (Tid × J)) :=
  (s.front.toList ++ s.queue).flatMap s.ctxQueue

/-- What is not enqueued yet. -/
def underway (s : State Tid (Tid × J)) : List (Context (Tid × J)) :=
  s.midway.flatMap fun m => s.ctxQueue m.2

/-- Every emission has a `Deliver` of its own, and those of one thread stay in order. -/
structure InOrder (s : State Tid (Tid × J)) : Prop where
  nodup : (s.pushed.map Context.deliver).Nodup
  single : (s.midway.map Prod.fst).Nodup
  tagged : ∀ m ∈ s.midway, ∀ c ∈ s.ctxQueue m.2, c.args.1 = m.1
  order : ∀ t, ofThread t (s.calls ++ pending s ++ underway s) = ofThread t s.pushed

@[simp]
theorem ofThread_append (t : Tid) (cs cs' : List (Context (Tid × J))) :
    ofThread t (cs ++ cs') = ofThread t cs ++ ofThread t cs' :=
  List.filter_append cs cs'

theorem ofThread_eq_nil {t : Tid} {cs : List (Context (Tid × J))} (h : ∀ c ∈ cs, c.args.1 ≠ t) :
    ofThread t cs = [] :=
  List.filter_eq_nil_iff.mpr fun c hc => by simpa using h c hc

theorem midwayOf_eq_none_iff {s : State Tid (Tid × J)} {t : Tid} :
    s.midwayOf t = none ↔ ∀ m ∈ s.midway, m.1 ≠ t := by
  simp [State.midwayOf, List.find?_eq_none]

variable {self : Tid} {s s' : State Tid (Tid × J)}

/-- A thread that is not between the two pushes has nothing under way. -/
theorem InOrder.underway_nil (h : InOrder s) {t : Tid} (ht : ∀ m ∈ s.midway, m.1 ≠ t) :
    ofThread t (underway s) = [] := by
  refine ofThread_eq_nil fun c hc => ?_
  obtain ⟨m, hm, hcm⟩ := List.mem_flatMap.mp hc
  rw [h.tagged m hm c hcm]
  exact ht m hm

omit [DecidableEq Tid] in
/-- Nothing is queued for a `Deliver` that is new. -/
theorem ctxQueue_new (hl : Logged self s) (hp : Paired s) {d : Nat}
    (hnew : ∀ c ∈ s.pushed, c.deliver ≠ d) : s.ctxQueue d = [] ∧ s.due d = 0 := by
  have hnil : ofDeliver d s.pushed = [] :=
    List.filter_eq_nil_iff.mpr fun c hc => by simpa using hnew c hc
  have hctx : s.ctxQueue d = [] := by
    have horder := hl.order d
    rw [hnil] at horder
    exact (List.append_eq_nil_iff.mp horder).2
  refine ⟨hctx, ?_⟩
  rw [← hp d, hctx, List.length_nil]

omit [DecidableEq Tid] in
/-- The places of a `Deliver` that is not due. -/
theorem not_mem_of_due_zero {s : State Tid (Tid × J)} {d : Nat} (h : s.due d = 0) :
    d ∉ s.front.toList ++ s.queue ∧ ∀ m ∈ s.midway, m.2 ≠ d := by
  unfold State.due at h
  refine ⟨fun hmem => ?_, fun m hm heq => ?_⟩
  · rcases List.mem_append.mp hmem with hfront | hqueue
    · have hpos := List.count_pos_iff.mpr hfront
      omega
    · have hpos := List.count_pos_iff.mpr hqueue
      omega
  · have hpos := List.count_pos_iff.mpr (List.mem_map.mpr ⟨m, hm, heq⟩)
    omega

/-- A function is posted. -/
theorem InOrder.push (h : InOrder s) (hl : Logged self s) (hp : Paired s) {t : Tid} {d : Nat}
    {cb : J} (hnew : ∀ c ∈ s.pushed, c.deliver ≠ d) (ht : ∀ m ∈ s.midway, m.1 ≠ t) :
    InOrder (s.pushContext t d (t, cb)) := by
  obtain ⟨hctx, hdue⟩ := ctxQueue_new hl hp hnew
  obtain ⟨hplace, hmid⟩ := not_mem_of_due_zero hdue
  have hself : (s.pushContext t d (t, cb)).ctxQueue d = [⟨s.pushed.length, d, (t, cb)⟩] := by
    rw [State.pushContext, hctx]
    exact Function.update_self ..
  have hother : ∀ e, e ≠ d → (s.pushContext t d (t, cb)).ctxQueue e = s.ctxQueue e :=
    fun e he => Function.update_of_ne he _ _
  -- nobody else looks at the new `Deliver`
  have hpending : pending (s.pushContext t d (t, cb)) = pending s :=
    List.flatMap_congr fun e he => hother e fun heq => hplace (by rwa [heq] at he)
  have hunder : underway (s.pushContext t d (t, cb))
      = ⟨s.pushed.length, d, (t, cb)⟩ :: underway s := by
    show (s.pushContext t d (t, cb)).ctxQueue d ++ s.midway.flatMap _ = _
    rw [hself, List.singleton_append, underway]
    congr 1
    exact List.flatMap_congr fun m hm => hother m.2 (hmid m hm)
  refine ⟨?_, ?_, ?_, fun u => ?_⟩
  · show ((s.pushed ++ [_]).map Context.deliver).Nodup
    rw [List.map_append, List.map_singleton]
    refine h.nodup.append (List.nodup_singleton _) ?_
    simp only [List.disjoint_singleton, List.mem_map, not_exists, not_and]
    exact hnew
  · show ((t, d) :: s.midway |>.map Prod.fst).Nodup
    rw [List.map_cons, List.nodup_cons]
    refine ⟨fun hmem => ?_, h.single⟩
    obtain ⟨m, hm, hmt⟩ := List.mem_map.mp hmem
    exact ht m hm hmt
  · intro m hm c hc
    rcases List.mem_cons.mp hm with rfl | hm
    · rw [hself, List.mem_singleton] at hc
      rw [hc]
    · rw [hother m.2 (hmid m hm)] at hc
      exact h.tagged m hm c hc
  · have horder := h.order u
    show ofThread u (s.calls ++ _ ++ _) = ofThread u (s.pushed ++ [_])
    rw [hpending, hunder, ← List.singleton_append]
    simp only [ofThread_append] at horder ⊢
    by_cases htu : t = u
    · subst htu
      rw [← horder, h.underway_nil ht, List.append_nil, List.append_nil]
    · have hnone : ofThread u [⟨s.pushed.length, d, (t, cb)⟩] = [] :=
        ofThread_eq_nil (by simpa using htu)
      rw [← horder, hnone, List.nil_append, List.append_nil]

/-- It is enqueued: then it comes behind all that are. -/
theorem InOrder.enqueue (h : InOrder s) {t : Tid} {d : Nat} (hm : (t, d) ∈ s.midway) :
    InOrder (s.enqueue t d) := by
  obtain ⟨before, after, -, hmidway, herase⟩ := List.exists_erase_eq hm
  have hsingle := h.single
  have htag := h.tagged (t, d) hm
  have htagged := h.tagged
  rw [hmidway] at hsingle htagged
  simp only [List.map_append, List.map_cons, List.nodup_middle, List.nodup_cons,
    List.mem_append, List.mem_map, not_or, not_exists, not_and] at hsingle
  refine ⟨h.nodup, h.single.sublist (List.erase_sublist.map _), fun m hmem => ?_, fun u => ?_⟩
  · exact h.tagged m (List.mem_of_mem_erase hmem)
  · have hpending : pending (s.enqueue t d) = pending s ++ s.ctxQueue d := by
      show (s.front.toList ++ (s.queue ++ [d])).flatMap s.ctxQueue = _
      rw [← List.append_assoc, List.flatMap_append, List.flatMap_singleton, pending]
    have hbefore : underway s = before.flatMap (fun m => s.ctxQueue m.2) ++ s.ctxQueue d
        ++ after.flatMap (fun m => s.ctxQueue m.2) := by
      rw [underway, hmidway, List.flatMap_append, List.flatMap_cons, List.append_assoc]
    have hafter : underway (s.enqueue t d) = before.flatMap (fun m => s.ctxQueue m.2)
        ++ after.flatMap (fun m => s.ctxQueue m.2) := by
      show (s.midway.erase (t, d)).flatMap _ = _
      rw [herase, List.flatMap_append]
      rfl
    have horder := h.order u
    show ofThread u (s.calls ++ _ ++ _) = ofThread u s.pushed
    rw [hpending, hafter, ← horder, hbefore]
    simp only [ofThread_append]
    by_cases htu : t = u
    · -- the thread has nothing else under way
      subst htu
      have hnil : ∀ l : List (Tid × Nat), (∀ m ∈ l, m ∈ before ++ (t, d) :: after) →
          (∀ m ∈ l, m.1 ≠ t) → ofThread t (l.flatMap fun m => s.ctxQueue m.2) = [] := by
        intro l hl hne
        refine ofThread_eq_nil fun c hc => ?_
        obtain ⟨m, hmem, hcm⟩ := List.mem_flatMap.mp hc
        rw [htagged m (hl m hmem) c hcm]
        exact hne m hmem
      rw [hnil before (fun m hm => List.mem_append_left _ hm) hsingle.1.1,
        hnil after (fun m hm => List.mem_append_right _ (List.mem_cons_of_mem _ hm)) hsingle.1.2]
      simp
    · have hnil : ofThread u (s.ctxQueue d) = [] := ofThread_eq_nil fun c hc => by
        rw [htag c hc]
        exact htu
      rw [hnil]
      simp

/-- The first one is called. -/
theorem InOrder.invoke (h : InOrder s) (hl : Logged self s) (hp : Paired s) {d : Nat}
    (hd : s.front = some d) : InOrder (s.invoke self d).2 := by
  obtain ⟨c, cs, hcs, heq⟩ := hp.invoke_eq self hd
  -- it was the only context of its `Deliver`, which is due nowhere else
  have hone : s.due d ≤ 1 := by
    have hlen : (ofDeliver d s.pushed).length ≤ 1 := by
      have hcount := List.nodup_iff_count_le_one.mp h.nodup d
      rw [List.count, List.countP_map] at hcount
      rw [ofDeliver, ← List.countP_eq_length_filter]
      exact hcount
    rw [← hl.order d, List.length_append, hp d] at hlen
    omega
  have hnil : cs = [] := by
    rw [← hp d, hcs, List.length_cons] at hone
    exact List.length_eq_zero_iff.mp (by omega)
  have hplace : d ∉ s.queue ∧ ∀ m ∈ s.midway, m.2 ≠ d := by
    unfold State.due at hone
    rw [hd, Option.toList_some, List.count_singleton_self] at hone
    refine ⟨fun hmem => ?_, fun m hm heq => ?_⟩
    · have hpos := List.count_pos_iff.mpr hmem
      omega
    · have hpos := List.count_pos_iff.mpr (List.mem_map.mpr ⟨m, hm, heq⟩)
      omega
  subst hnil
  have hother : ∀ e, e ≠ d → Function.update s.ctxQueue d [] e = s.ctxQueue e :=
    fun e he => Function.update_of_ne he _ _
  rw [heq]
  refine ⟨h.nodup, h.single, fun m hm e he => ?_, fun u => ?_⟩
  · have hsame : Function.update s.ctxQueue d [] m.2 = s.ctxQueue m.2 :=
      hother m.2 (hplace.2 m hm)
    exact h.tagged m hm e (hsame ▸ he)
  · have hpending : pending s = [c] ++ s.queue.flatMap s.ctxQueue := by
      rw [pending, hd, Option.toList_some, List.singleton_append, List.flatMap_cons, hcs]
    have hqueue : s.queue.flatMap (Function.update s.ctxQueue d []) = s.queue.flatMap s.ctxQueue :=
      List.flatMap_congr fun e he => hother e fun heq => hplace.1 (by rwa [heq] at he)
    have hunder : s.midway.flatMap (fun m => Function.update s.ctxQueue d [] m.2) = underway s :=
      List.flatMap_congr fun m hm => hother m.2 (hplace.2 m hm)
    have horder := h.order u
    rw [hpending] at horder
    show ofThread u ((s.invoked ++ [(self, c)]).map Prod.snd
      ++ s.queue.flatMap (Function.update s.ctxQueue d [])
      ++ s.midway.flatMap (fun m => Function.update s.ctxQueue d [] m.2)) = _
    rw [List.map_append, List.map_singleton, hqueue, hunder, ← horder, ← List.append_assoc]
    rfl

/-- **Every step keeps the order.** -/
theorem step_inOrder {a : Act Tid (Tid × J)} (h : InOrder s) (hl : Logged self s) (hp : Paired s)
    (hexec : Execs self s a) (hstep : step self s a = some s') : InOrder s' := by
  cases a with
  | push t d a =>
    obtain ⟨u, cb⟩ := a
    obtain ⟨-, rfl, hnew⟩ := execs_push hexec
    simp only [step] at hstep
    split at hstep
    · rename_i hnone
      obtain rfl := Option.some.inj hstep
      exact h.push hl hp hnew (midwayOf_eq_none_iff.mp hnone)
    · cases hstep
  | enqueue t =>
    obtain ⟨m, hm, rfl⟩ := Option.map_eq_some_iff.mp hstep
    obtain ⟨hmem, rfl⟩ := midwayOf_some hm
    exact h.enqueue hmem
  | pop =>
    obtain ⟨⟨d, t⟩, hpop, rfl⟩ := Option.map_eq_some_iff.mp hstep
    obtain ⟨hfront, q, hq, rfl⟩ := pop_some hpop
    have hpending : pending ({ s with queue := q, front := some d } : State Tid (Tid × J))
        = pending s := by
      simp only [pending, hfront, hq, Option.toList_none, Option.toList_some,
        List.nil_append, List.singleton_append]
    refine ⟨h.nodup, h.single, h.tagged, fun u => ?_⟩
    rw [hpending]
    exact h.order u
  | invoke =>
    obtain ⟨d, hd, rfl⟩ := Option.map_eq_some_iff.mp hstep
    exact h.invoke hl hp hd

theorem initial_inOrder : InOrder (initial Tid (Tid × J)) :=
  ⟨List.nodup_nil, List.nodup_nil, nofun, fun _ => rfl⟩

/-- **Along every run** the functions that a thread has posted are called in its order, and all of
    them have been when nothing is under way. -/
theorem runs_inOrder {as : List (Act Tid (Tid × J))}
    (h : Runs (step self) (Execs self) (initial Tid (Tid × J)) as s) :
    (∀ t, ofThread t s.calls <+: ofThread t s.pushed) ∧
      (s.midway = [] → s.queue = [] → s.front = none →
        ∀ t, ofThread t s.calls = ofThread t s.pushed) := by
  have hinv := h.invariant (fun s => Paired s ∧ Logged self s ∧ InOrder s)
    (fun s a s' hs hok hstep => ⟨step_paired hs.1 hstep, step_logged hs.2.1 hs.1 hstep,
      step_inOrder hs.2.2 hs.2.1 hs.1 hok hstep⟩)
    ⟨initial_paired Tid _, initial_logged self, initial_inOrder⟩
  have horder := hinv.2.2.order
  refine ⟨fun t => ?_, fun hmid hqueue hfront t => ?_⟩
  · rw [← horder t, List.append_assoc, ofThread_append]
    exact List.prefix_append ..
  · rw [← horder t, pending, underway, hmid, hqueue, hfront]
    simp

/-- Every function posted has been called, or waits to be. -/
theorem InOrder.perm (h : InOrder s) : (s.calls ++ pending s ++ underway s).Perm s.pushed := by
  classical
  refine List.perm_iff_count.mpr fun c => ?_
  have hcount : ∀ cs : List (Context (Tid × J)), cs.count c = (ofThread c.args.1 cs).count c :=
    fun cs => (List.count_filter (by simp)).symm
  rw [hcount, hcount s.pushed, h.order]

end RtCharger.Os.Task
