import RtCharger.Os.Reply
import Mathlib.Algebra.BigOperators.Group.List.Basic
import Mathlib.Algebra.Ring.Nat

namespace RtCharger.Os.Reply

open SharedHeap StepSystem

/-!
# Owners and replies of a temporary `Deliver`

* `Stepped` — one step and its effect;
* `balance` — the replies still owed, those under way and those the function was called for are
  together as many as there are subscribers;
* `Inv`, `step_inv` — besides, owners are counted and `Post::delivers` has exactly the `Deliver`s
  that no reply was called for yet.
-/

variable {Tid : Type}

/-- The replies that the emissions in progress have not asked for yet. -/
def remaining (fs : List (Frame Tid)) (d : Nat) : Nat :=
  (fs.map fun f => if f.deliver = d then f.rest.length else 0).sum

/-- The replies to come: the subscriber has not been called, or has not come back. -/
def State.owed (s : State Tid) (d : Nat) : Nat := remaining s.frames d + s.pending.count d

/-- The replies for which the function of `d` was called. -/
def State.called (s : State Tid) (d : Nat) : Nat := (Post.ofDeliver d s.post.calls).length

/-- The owners of the `Deliver`s. -/
def State.owners (s : State Tid) : List Nat :=
  s.delivers ++ s.post.queue ++ s.frames.map Frame.deliver ++ s.front.toList

/-- Owners and replies add up. -/
structure Inv (p : Tid) (s : State Tid) : Prop where
  counted : s.heap.Counted s.owners
  paired : Post.Paired s.post
  logged : Post.Logged p s.post
  front : ∀ d, s.post.front = some d → s.front = some d
  balance : ∀ d, s.owed d + s.post.due d + s.called d = s.replies d
  registered : ∀ d, d ∈ s.delivers ↔ d < s.heap.next ∧ s.called d = 0
  unborn : ∀ d, s.heap.next ≤ d → s.replies d = 0

theorem initial_inv (p : Tid) : Inv p (initial Tid) := by
  refine ⟨counted_empty, Post.initial_paired Tid Outcome, Post.initial_logged p, ?_, ?_, ?_, ?_⟩
  · exact fun d h => nomatch h
  · exact fun d => rfl
  · simp [initial, SharedHeap.empty]
  · exact fun d _ => rfl

/-- A `Deliver` with a reply under way or to come has not been disposed of. -/
theorem Inv.mem_delivers {p : Tid} {s : State Tid} (h : Inv p s) {d : Nat}
    (hpos : 0 < s.replies d) (hc : s.called d = 0) : d ∈ s.delivers := by
  refine (h.registered d).mpr ⟨?_, hc⟩
  by_contra hge
  have hzero := h.unborn d (Nat.not_lt.mp hge)
  omega

theorem Inv.alive_of_mem {p : Tid} {s : State Tid} (h : Inv p s) {d : Nat} (hd : d ∈ s.owners) :
    s.alive d = true :=
  (h.counted.alive_iff d).mpr hd

/-! ### What a step does -/

section

variable [DecidableEq Tid]

/-- The step taken, with its effect. -/
inductive Stepped (self : Tid) (s : State Tid) : Act Tid → State Tid → Prop
  | emit {t : Tid} {subs : List Subscriber} : Stepped self s (.emit t subs) (s.begin t subs)
  | exec {t : Tid} : Stepped self s (.exec t) (s.begin t [.plain])
  | inline : Stepped self s (.exec self) s
  | plain {f : Frame Tid} {o : Outcome} {rest : List Subscriber} (hf : f ∈ s.frames)
      (hrest : f.rest = .plain :: rest) :
      Stepped self s (.call f.thread f.deliver o)
        { s with post := s.post.pushContext f.thread f.deliver o, frames := s.advance f rest }
  | deferred {f : Frame Tid} {o : Outcome} {rest : List Subscriber} (hf : f ∈ s.frames)
      (hrest : f.rest = .deferred :: rest) :
      Stepped self s (.call f.thread f.deliver o)
        { s with pending := f.deliver :: s.pending, frames := s.advance f rest }
  | leave {f : Frame Tid} (hf : f ∈ s.frames) (hrest : f.rest = [])
      (hfree : s.post.midwayOf f.thread = none) :
      Stepped self s (.leave f.thread f.deliver)
        { s with frames := s.frames.erase f, heap := s.heap.release f.deliver }
  | reply {t : Tid} {d : Nat} {o : Outcome} (hp : d ∈ s.pending) :
      Stepped self s (.reply t d o)
        { s with post := s.post.pushContext t d o, pending := s.pending.erase d }
  | enqueue {t : Tid} {d : Nat} (hm : (t, d) ∈ s.post.midway) (ha : s.alive d = true) :
      Stepped self s (.enqueue t)
        { s with post := s.post.enqueue t d, heap := s.heap.acquire d }
  | pop {d : Nat} {post : Post.State Tid Outcome} (hf : s.front = none)
      (hp : s.post.pop = some (d, post)) :
      Stepped self s .pop { s with post := post, front := some d }
  | invoke {f : Outcome} {d : Nat} (hd : s.post.front = some d) :
      Stepped self s (.invoke f) ({ s with post := (s.post.invoke self d).2 }.dispose d)
  | done {d : Nat} (hp : s.post.front = none) (hf : s.front = some d) :
      Stepped self s .done { s with front := none, heap := s.heap.release d }

theorem frameOf_some {s : State Tid} {t : Tid} {d : Nat} {f : Frame Tid}
    (h : s.frameOf t d = some f) : f ∈ s.frames ∧ f.thread = t ∧ f.deliver = d :=
  ⟨List.mem_of_find?_eq_some h, by simpa using List.find?_some h⟩

theorem call_stepped {self : Tid} {s s' : State Tid} {f : Frame Tid} {o : Outcome}
    (hf : f ∈ s.frames) (h : s.call f o = some s') :
    Stepped self s (.call f.thread f.deliver o) s' := by
  unfold State.call at h
  split at h
  · cases h
  · rename_i rest hrest
    simp only [Option.ite_none_right_eq_some, Option.some.injEq] at h
    obtain ⟨_, rfl⟩ := h
    exact .plain hf hrest
  · rename_i rest hrest
    obtain rfl := Option.some.inj h
    exact .deferred hf hrest

theorem step_stepped {self : Tid} {s s' : State Tid} {a : Act Tid} (hp : Post.Paired s.post)
    (h : step self s a = some s') : Stepped self s a s' := by
  cases a with
  | emit t subs =>
    simp only [step, Option.ite_none_right_eq_some, Option.some.injEq] at h
    obtain ⟨_, rfl⟩ := h
    exact .emit
  | exec t =>
    simp only [step, Option.ite_none_right_eq_some] at h
    obtain ⟨_, h⟩ := h
    split at h
    · -- the target thread executes the task itself
      rename_i ht
      obtain rfl := Option.some.inj h
      rw [ht]
      exact .inline
    · obtain rfl := Option.some.inj h
      exact .exec
  | call t d o =>
    simp only [step, Option.ite_none_right_eq_some, Option.bind_eq_some_iff] at h
    obtain ⟨_, f, hf, h⟩ := h
    obtain ⟨hmem, rfl, rfl⟩ := frameOf_some hf
    exact call_stepped hmem h
  | leave t d =>
    simp only [step, Option.ite_none_right_eq_some, Option.bind_eq_some_iff] at h
    obtain ⟨hfree, f, hf, h⟩ := h
    obtain ⟨hmem, rfl, rfl⟩ := frameOf_some hf
    unfold State.leave at h
    split at h
    · rename_i hrest
      obtain rfl := Option.some.inj h
      exact .leave hmem hrest hfree
    · cases h
  | reply t d o =>
    simp only [step, State.reply, Option.ite_none_right_eq_some, Option.some.injEq] at h
    obtain ⟨_, ⟨hmem, _⟩, rfl⟩ := h
    exact .reply hmem
  | enqueue t =>
    simp only [step, State.enqueue, Option.bind_eq_some_iff, Option.ite_none_right_eq_some,
      Option.some.injEq] at h
    obtain ⟨m, hm, ha, rfl⟩ := h
    obtain ⟨hmem, rfl⟩ := Post.midwayOf_some hm
    exact .enqueue hmem ha
  | pop =>
    simp only [step, State.pop] at h
    split at h
    · rename_i hf hpop
      obtain rfl := Option.some.inj h
      exact .pop hf hpop
    · cases h
  | invoke f =>
    simp only [step, State.invoke] at h
    split at h
    · cases h
    · -- a popped entry and the task in the store belong together
      rename_i d hd
      obtain ⟨c, cs, _, heq⟩ := hp.invoke_eq self hd
      have hinv : Stepped self s (.invoke f) _ := .invoke hd
      rw [heq] at h hinv
      obtain rfl := Option.some.inj h
      exact hinv
  | done =>
    simp only [step, State.done] at h
    split at h
    · rename_i hp hf
      obtain rfl := Option.some.inj h
      exact .done hp hf
    · cases h

end

/-! ### Counting -/

@[simp] theorem remaining_cons (f : Frame Tid) (fs : List (Frame Tid)) (d : Nat) :
    remaining (f :: fs) d = (if f.deliver = d then f.rest.length else 0) + remaining fs d := by
  simp [remaining]

section

variable [DecidableEq Tid] {fs : List (Frame Tid)} {f : Frame Tid}

theorem remaining_erase (hf : f ∈ fs) (d : Nat) :
    remaining fs d = (if f.deliver = d then f.rest.length else 0) + remaining (fs.erase f) d := by
  rw [← remaining_cons]
  exact ((List.perm_cons_erase hf).map _).sum_eq

theorem count_erase_frame (hf : f ∈ fs) (d : Nat) :
    (fs.map Frame.deliver).count d =
      ((fs.erase f).map Frame.deliver).count d + if f.deliver = d then 1 else 0 := by
  rw [((List.perm_cons_erase hf).map Frame.deliver).count_eq d, List.map_cons, List.count_cons]
  simp

end

theorem count_owners (s : State Tid) (d : Nat) :
    s.owners.count d = s.delivers.count d + s.post.queue.count d +
      (s.frames.map Frame.deliver).count d + s.front.toList.count d := by
  simp only [State.owners, List.count_append]

/-- A `Deliver` not made yet has nothing to its name. -/
theorem Inv.fresh {p : Tid} {s : State Tid} (h : Inv p s) :
    s.owed s.heap.next = 0 ∧ s.called s.heap.next = 0 ∧ s.post.due s.heap.next = 0 := by
  have hbal := h.balance s.heap.next
  have hzero := h.unborn s.heap.next (Nat.le_refl _)
  omega

/-! ### Every step keeps the invariant -/

theorem Inv.begin {p : Tid} {s : State Tid} (h : Inv p s) (t : Tid) (subs : List Subscriber) :
    Inv p (s.begin t subs) := by
  obtain ⟨hrem, hcal, hdue⟩ := h.fresh
  have hown : (s.heap.make ()).Counted (s.heap.next :: s.owners) := h.counted.make ()
  refine ⟨?_, h.paired, h.logged, h.front, ?_, ?_, ?_⟩
  · refine (hown.acquire List.mem_cons_self).congr fun d => ?_
    simp only [count_owners, State.begin, List.count_cons, List.count_append, List.map_cons,
      List.count_nil]
    omega
  · intro d
    have hbal := h.balance d
    show remaining (_ :: s.frames) d + s.pending.count d + s.post.due d + s.called d =
      Function.update s.replies s.heap.next subs.length d
    rw [remaining_cons]
    by_cases hd : s.heap.next = d
    · subst hd
      simp only [if_true, Function.update_self]
      simp only [State.owed] at hrem
      omega
    · rw [if_neg hd, Function.update_of_ne (Ne.symm hd)]
      simp only [State.owed] at hbal
      omega
  · intro d
    show d ∈ s.delivers ++ [s.heap.next] ↔ d < s.heap.next + 1 ∧ s.called d = 0
    rw [List.mem_append, List.mem_singleton, h.registered d]
    constructor
    · rintro (⟨hlt, hc⟩ | rfl)
      · exact ⟨by omega, hc⟩
      · exact ⟨by omega, hcal⟩
    · rintro ⟨hlt, hc⟩
      by_cases hd : d = s.heap.next
      · exact .inr hd
      · exact .inl ⟨by omega, hc⟩
  · intro d hd
    have hlt : s.heap.next < d := hd
    show Function.update s.replies s.heap.next subs.length d = 0
    rw [Function.update_of_ne (by omega)]
    exact h.unborn d (by omega)

/-- The first half of a reply takes one reply from those owed to those due. -/
theorem Inv.push {p : Tid} {s s' : State Tid} (h : Inv p s) {t : Tid} {d : Nat} {o : Outcome}
    (hpost : s'.post = s.post.pushContext t d o) (hheap : s'.heap = s.heap)
    (hdel : s'.delivers = s.delivers) (hfront : s'.front = s.front)
    (hrep : s'.replies = s.replies)
    (hframes : ∀ d', (s'.frames.map Frame.deliver).count d' = (s.frames.map Frame.deliver).count d')
    (howed : ∀ d', s.owed d' = s'.owed d' + if d' = d then 1 else 0) : Inv p s' := by
  refine ⟨?_, ?_, ?_, ?_, ?_, ?_, ?_⟩
  · rw [hheap]
    refine h.counted.congr fun d' => ?_
    rw [count_owners, count_owners, hdel, hfront, hpost, hframes]
    rfl
  · rw [hpost]
    exact h.paired.push t d o
  · rw [hpost]
    exact h.logged.push t d o
  · intro d' hd'
    rw [hpost] at hd'
    rw [hfront]
    exact h.front d' hd'
  · intro d'
    have hbal := h.balance d'
    have hcal : s'.called d' = s.called d' := by
      rw [State.called, hpost]
      rfl
    rw [hpost, Post.due_push, hcal, hrep]
    have hd' := howed d'
    omega
  · intro d'
    rw [hdel, hheap, h.registered d', State.called, State.called, hpost]
    rfl
  · rw [hheap, hrep]
    exact h.unborn

section

variable [DecidableEq Tid]

theorem Inv.plain {p : Tid} {s : State Tid} (h : Inv p s) {f : Frame Tid} {o : Outcome}
    {rest : List Subscriber} (hf : f ∈ s.frames) (hrest : f.rest = .plain :: rest) :
    Inv p { s with post := s.post.pushContext f.thread f.deliver o, frames := s.advance f rest } := by
  refine h.push rfl rfl rfl rfl rfl ?_ ?_
  · intro d
    rw [count_erase_frame hf]
    simp [State.advance, List.count_cons]
  · intro d
    simp only [State.owed, remaining_erase hf d, State.advance, remaining_cons, hrest,
      List.length_cons, eq_comm (a := d)]
    split <;> omega

omit [DecidableEq Tid] in
theorem Inv.reply {p : Tid} {s : State Tid} (h : Inv p s) {t : Tid} {d : Nat} {o : Outcome}
    (hp : d ∈ s.pending) :
    Inv p { s with post := s.post.pushContext t d o, pending := s.pending.erase d } := by
  refine h.push rfl rfl rfl rfl rfl (fun _ => rfl) ?_
  intro d'
  show remaining s.frames d' + s.pending.count d' = remaining s.frames d' +
    (s.pending.erase d).count d' + _
  by_cases hd : d' = d
  · subst hd
    have hpos := List.count_pos_iff.mpr hp
    rw [List.count_erase_self, if_pos rfl]
    omega
  · rw [List.count_erase_of_ne hd, if_neg hd]
    rfl

theorem Inv.deferred {p : Tid} {s : State Tid} (h : Inv p s) {f : Frame Tid}
    {rest : List Subscriber} (hf : f ∈ s.frames) (hrest : f.rest = .deferred :: rest) :
    Inv p { s with pending := f.deliver :: s.pending, frames := s.advance f rest } := by
  refine ⟨?_, h.paired, h.logged, h.front, ?_, h.registered, h.unborn⟩
  · refine h.counted.congr fun d => ?_
    rw [count_owners, count_owners, count_erase_frame hf]
    simp [State.advance, List.count_cons]
  · intro d
    have hbal := h.balance d
    simp only [State.owed, remaining_erase hf d, hrest, List.length_cons] at hbal
    show remaining (s.advance f rest) d + (f.deliver :: s.pending).count d + s.post.due d +
      s.called d = s.replies d
    simp only [State.advance, remaining_cons, List.count_cons, beq_iff_eq]
    by_cases hd : f.deliver = d
    · simp only [hd, if_true] at hbal ⊢
      omega
    · simp only [hd, if_false] at hbal ⊢
      omega

theorem Inv.leave {p : Tid} {s : State Tid} (h : Inv p s) {f : Frame Tid} (hf : f ∈ s.frames)
    (hrest : f.rest = []) :
    Inv p { s with frames := s.frames.erase f, heap := s.heap.release f.deliver } := by
  refine ⟨?_, h.paired, h.logged, h.front, ?_, h.registered, h.unborn⟩
  · refine h.counted.releaseMany 1 fun d => ?_
    rw [count_owners, count_owners, count_erase_frame hf]
    simp only [eq_comm (a := d)]
    omega
  · intro d
    have hbal := h.balance d
    simp only [State.owed, remaining_erase hf d, hrest, List.length_nil, ite_self,
      Nat.zero_add] at hbal
    exact hbal

theorem Inv.enqueue {p : Tid} {s : State Tid} (h : Inv p s) {t : Tid} {d : Nat}
    (hm : (t, d) ∈ s.post.midway) (ha : s.alive d = true) :
    Inv p { s with post := s.post.enqueue t d, heap := s.heap.acquire d } := by
  refine ⟨?_, h.paired.enqueue hm, ?_, h.front, ?_, h.registered, h.unborn⟩
  · refine (h.counted.acquire ((h.counted.alive_iff d).mp ha)).congr fun d' => ?_
    rw [List.count_cons, count_owners, count_owners]
    simp only [Post.State.enqueue, List.count_append, List.count_cons, List.count_nil]
    omega
  · exact ⟨h.logged.order, h.logged.ids, h.logged.thread⟩
  · intro d'
    rw [Post.due_enqueue hm]
    exact h.balance d'

end

theorem Inv.pop {p : Tid} {s : State Tid} (h : Inv p s) {d : Nat}
    {post : Post.State Tid Outcome} (hf : s.front = none) (hp : s.post.pop = some (d, post)) :
    Inv p { s with post := post, front := some d } := by
  have hdue := Post.due_pop hp
  have hpaired := h.paired.pop hp
  obtain ⟨_, q, hq, rfl⟩ := Post.pop_some hp
  refine ⟨?_, hpaired, ⟨h.logged.order, h.logged.ids, h.logged.thread⟩, ?_, ?_, h.registered,
    h.unborn⟩
  · refine h.counted.congr fun d' => ?_
    rw [count_owners, count_owners]
    simp only [hq, hf, Option.toList_none, Option.toList_some, List.count_nil, List.count_cons]
    omega
  · exact fun d' hd' => hd'
  · intro d'
    rw [hdue]
    exact h.balance d'

theorem Inv.done {p : Tid} {s : State Tid} (h : Inv p s) {d : Nat} (hp : s.post.front = none)
    (hf : s.front = some d) :
    Inv p { s with front := none, heap := s.heap.release d } := by
  refine ⟨?_, h.paired, h.logged, ?_, h.balance, h.registered, h.unborn⟩
  · refine h.counted.releaseMany 1 fun d' => ?_
    rw [count_owners, count_owners]
    simp only [hf, Option.toList_none, Option.toList_some, List.count_nil, List.count_cons,
      beq_iff_eq, eq_comm (a := d')]
    omega
  · intro d' hd'
    have hsome : s.post.front = some d' := hd'
    rw [hp] at hsome
    cases hsome

/-- The polling thread calls the function of `d` and disposes of `d`: one reply less is due, and
    one more was called for. -/
theorem Inv.invoke {p : Tid} {s : State Tid} (h : Inv p s) {d : Nat}
    (hd : s.post.front = some d) :
    Inv p ({ s with post := (s.post.invoke p d).2 }.dispose d) := by
  obtain ⟨c, cs, hcs, heq⟩ := h.paired.invoke_eq p hd
  have hdeliver : c.deliver = d := h.logged.deliver_eq (by rw [hcs]; exact List.mem_cons_self)
  have hcalled : ∀ d', ({ s with post := (s.post.invoke p d).2 }.dispose d).called d' =
      s.called d' + if d' = d then 1 else 0 := by
    intro d'
    have hcalls : (s.post.invoke p d).2.calls = s.post.calls ++ [c] := by
      rw [heq]
      simp [Post.State.calls]
    show (Post.ofDeliver d' (s.post.invoke p d).2.calls).length = _
    rw [hcalls, Post.ofDeliver_append, List.length_append, State.called]
    by_cases hne : d' = d
    · subst hne
      subst hdeliver
      simp
    · rw [Post.ofDeliver_other (by rw [hdeliver]; exact hne), if_neg hne]
      rfl
  have hqueue : (s.post.invoke p d).2.queue = s.post.queue := by rw [heq]
  have hnone : (s.post.invoke p d).2.front = none := by rw [heq]
  refine ⟨?_, h.paired.invoke p hd, h.logged.invoke h.paired hd, ?_, ?_, ?_, ?_⟩
  · refine h.counted.releaseMany _ fun d' => ?_
    rw [count_owners, count_owners]
    simp only [State.dispose, hqueue]
    by_cases hne : d' = d
    · subst hne
      rw [List.count_eq_zero.mpr (by simp : d' ∉ s.delivers.filter fun x => decide (x ≠ d')),
        if_pos rfl]
      omega
    · rw [List.count_filter (by simpa using hne), if_neg hne, Nat.add_zero]
  · intro d' hd'
    have hsome : (s.post.invoke p d).2.front = some d' := hd'
    rw [hnone] at hsome
    cases hsome
  · intro d'
    have hbal := h.balance d'
    have hdue := Post.due_invoke s.post p hd d'
    rw [hcalled]
    show s.owed d' + (s.post.invoke p d).2.due d' + _ = s.replies d'
    omega
  · intro d'
    rw [hcalled]
    show d' ∈ s.delivers.filter _ ↔ d' < (s.heap.releaseMany d _).next ∧ _
    rw [next_releaseMany, List.mem_filter, h.registered d']
    by_cases hne : d' = d
    · simp [hne]
    · simp [hne]
  · intro d' hd'
    have hge : (s.heap.releaseMany d (s.delivers.count d)).next ≤ d' := hd'
    rw [next_releaseMany] at hge
    exact h.unborn d' hge

/-- **Owners and replies add up** after every step. -/
theorem step_inv [DecidableEq Tid] {p : Tid} {s s' : State Tid} {a : Act Tid} (h : Inv p s)
    (hs : step p s a = some s') : Inv p s' := by
  cases step_stepped h.paired hs with
  | emit => exact h.begin _ _
  | exec => exact h.begin _ _
  | inline => exact h
  | plain hf hrest => exact h.plain hf hrest
  | deferred hf hrest => exact h.deferred hf hrest
  | leave hf hrest _ => exact h.leave hf hrest
  | reply hp => exact h.reply hp
  | enqueue hm ha => exact h.enqueue hm ha
  | pop hf hp => exact h.pop hf hp
  | invoke hd => exact h.invoke hd
  | done hp hf => exact h.done hp hf

/-- The invariant holds along every run. -/
theorem runs_inv [DecidableEq Tid] {p : Tid} {ok : State Tid → Act Tid → Prop} {s : State Tid}
    {as : List (Act Tid)} (h : Runs (step p) ok (initial Tid) as s) : Inv p s :=
  h.invariant (Inv p) (fun _ _ _ hi _ hs => step_inv hi hs) (initial_inv p)

end RtCharger.Os.Reply
