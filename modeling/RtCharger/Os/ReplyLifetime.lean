import RtCharger.Os.ReplyInvariant

namespace RtCharger.Os.Reply

open SharedHeap StepSystem

/-!
# Does a temporary `Deliver` outlive its replies?

The first reply that is polled disposes of the `Deliver`, whether or not other subscribers have
still to reply.

* `reply_to_destroyed` — two deferred subscribers: the second reply finds the `Deliver` gone;
* `Prompt` — at most one subscriber, or none but plain callbacks, which reply while the emitter
  still owns the `Deliver`;
* `step_prompted` — under this condition a reply finds an owner: `Post::delivers` or the emitter;
* `reach_outlived` — any other list of subscribers has a run that destroys the `Deliver` too early;
* `replies_reach_iff` — so the condition is exact.
-/

variable {Tid : Type}

/-- Some thread may take the next half of a reply to `d`: an emission is about to call a plain
    subscriber, a deferred one may come back, or a reply is between its two halves. -/
def Fires (s : State Tid) (d : Nat) : Prop :=
  (∃ f ∈ s.frames, f.deliver = d ∧ ∃ rest, f.rest = .plain :: rest) ∨ d ∈ s.pending ∨
    ∃ t, (t, d) ∈ s.post.midway

/-- How often `d` has been queued. -/
def State.timesQueued (s : State Tid) (d : Nat) : Nat :=
  s.post.queue.count d + s.post.front.toList.count d + s.called d

/-- Whenever a reply fires, its `Deliver` is not destroyed; and when no reply is outstanding the
    `Deliver` has been queued once for each subscriber. -/
structure RepliesReach (s : State Tid) : Prop where
  alive : ∀ d, Fires s d → s.alive d = true
  queued : ∀ d, s.owed d = 0 → (∀ t, (t, d) ∉ s.post.midway) → s.timesQueued d = s.replies d

/-- A `Signals` whose replies a temporary `Deliver` outlives: at most one subscriber, or plain
    callbacks only. -/
def Prompt (subs : List Subscriber) : Prop := subs.length ≤ 1 ∨ ∀ x ∈ subs, x = .plain

instance (subs : List Subscriber) : Decidable (Prompt subs) :=
  inferInstanceAs (Decidable (_ ∨ _))

/-- The emissions are on `Signals` with one of the lists of subscribers `L`. -/
def EmitsOn (L : List Subscriber → Prop) (_ : State Tid) : Act Tid → Prop
  | .emit _ subs => L subs
  | _            => True

/-- **A reply to a destroyed `Deliver`.**  Two deferred subscribers; the first one replies and is
    polled, and nobody owns the `Deliver` any more when the second one replies. -/
theorem reply_to_destroyed : ∃ as s, Runs (step 0) anyAction (initial Nat) as s ∧
    ¬ RepliesReach s := by
  refine ⟨[.emit 1 [.deferred, .deferred], .call 1 0 .returned, .call 1 0 .returned, .leave 1 0,
    .reply 2 0 .returned, .enqueue 2, .pop, .invoke .returned, .done], _, runs_get (by rfl), ?_⟩
  intro h
  have halive := h.alive 0 (.inr (.inl (by decide)))
  revert halive
  decide

/-- The number of replies adds up in any case. -/
theorem Inv.queued {p : Tid} {s : State Tid} (h : Inv p s) {d : Nat} (howed : s.owed d = 0)
    (hmid : ∀ t, (t, d) ∉ s.post.midway) : s.timesQueued d = s.replies d := by
  have hbal := h.balance d
  have hnone : (s.post.midway.map Prod.snd).count d = 0 := by
    rw [List.count_eq_zero]
    intro hmem
    obtain ⟨⟨t, _⟩, hm, rfl⟩ := List.mem_map.mp hmem
    exact hmid t hm
  simp only [Post.State.due, hnone] at hbal
  simp only [State.timesQueued]
  omega

/-! ### The condition is enough -/

/-- Only a `Deliver` with at most one subscriber gets a reply after its emission. -/
structure Prompted (s : State Tid) : Prop where
  frames : ∀ f ∈ s.frames, s.replies f.deliver ≤ 1 ∨ ∀ x ∈ f.rest, x = .plain
  pending : ∀ d ∈ s.pending, s.replies d ≤ 1
  midway : ∀ t d, (t, d) ∈ s.post.midway →
    s.replies d ≤ 1 ∨ ∃ f ∈ s.frames, f.thread = t ∧ f.deliver = d

/-- A single reply under way or to come keeps its `Deliver` in `Post::delivers`. -/
theorem Inv.alive_of_single {p : Tid} {s : State Tid} (h : Inv p s) {d : Nat}
    (hone : s.replies d ≤ 1) (hpos : 0 < s.owed d + s.post.due d) : s.alive d = true := by
  have hbal := h.balance d
  have hmem := h.mem_delivers (d := d) (by omega) (by omega)
  exact h.alive_of_mem (by simp [State.owners, hmem])

theorem Inv.alive_of_frame {p : Tid} {s : State Tid} (h : Inv p s) {f : Frame Tid}
    (hf : f ∈ s.frames) : s.alive f.deliver = true :=
  h.alive_of_mem (by simp [State.owners, List.mem_map_of_mem hf])

/-- A reply that fires finds its `Deliver`. -/
theorem Prompted.alive {p : Tid} {s : State Tid} (hp : Prompted s) (h : Inv p s) {d : Nat}
    (hd : Fires s d) : s.alive d = true := by
  rcases hd with ⟨f, hf, rfl, _⟩ | hd | ⟨t, hd⟩
  · exact h.alive_of_frame hf
  · have hcount := List.count_pos_iff.mpr hd
    exact h.alive_of_single (hp.pending d hd) (by simp only [State.owed]; omega)
  · rcases hp.midway t d hd with hone | ⟨f, hf, _, rfl⟩
    · have hdue := Post.due_pos_of_midway hd
      exact h.alive_of_single hone (by omega)
    · exact h.alive_of_frame hf

/-- The `Deliver` of a new emission has nothing under way. -/
theorem Inv.next_unused {p : Tid} {s : State Tid} (h : Inv p s) :
    (∀ f ∈ s.frames, f.deliver ≠ s.heap.next) ∧ s.heap.next ∉ s.pending ∧
      ∀ t, (t, s.heap.next) ∉ s.post.midway := by
  obtain ⟨howed, _, hdue⟩ := h.fresh
  simp only [State.owed] at howed
  refine ⟨?_, List.count_eq_zero.mp (by omega), ?_⟩
  · intro f hf heq
    refine h.counted.next_not_mem ?_
    rw [← heq]
    simp [State.owners, List.mem_map_of_mem hf]
  · intro t hm
    have hpos := Post.due_pos_of_midway hm
    omega

theorem Prompted.begin {p : Tid} {s : State Tid} (hp : Prompted s) (h : Inv p s) (t : Tid)
    {subs : List Subscriber} (hsubs : Prompt subs) : Prompted (s.begin t subs) := by
  obtain ⟨hframes, hpending, hmidway⟩ := h.next_unused
  have hrep : ∀ d, d ≠ s.heap.next → (s.begin t subs).replies d = s.replies d :=
    fun d hd => Function.update_of_ne hd _ _
  refine ⟨?_, ?_, ?_⟩
  · intro f hf
    rcases List.mem_cons.mp hf with rfl | hf
    · show Function.update s.replies s.heap.next subs.length s.heap.next ≤ 1 ∨ ∀ x ∈ subs, x = _
      rw [Function.update_self]
      exact hsubs
    · rw [hrep _ (hframes f hf)]
      exact hp.frames f hf
  · intro d hd
    have hmem : d ∈ s.pending := hd
    rw [hrep d (by rintro rfl; exact hpending hmem)]
    exact hp.pending d hmem
  · intro t' d hd
    have hmem : (t', d) ∈ s.post.midway := hd
    rw [hrep d (by rintro rfl; exact hmidway t' hmem)]
    rcases hp.midway t' d hmem with hone | ⟨f, hf, hf'⟩
    · exact .inl hone
    · exact .inr ⟨f, List.mem_cons_of_mem _ hf, hf'⟩

variable [DecidableEq Tid]

/-- A frame that goes on is still there. -/
theorem exists_advance {s : State Tid} {f : Frame Tid} (rest : List Subscriber) {t : Tid} {d : Nat}
    (h : ∃ f₀ ∈ s.frames, f₀.thread = t ∧ f₀.deliver = d) :
    ∃ f₁ ∈ s.advance f rest, f₁.thread = t ∧ f₁.deliver = d := by
  obtain ⟨f₀, hf₀, ht, hd⟩ := h
  by_cases heq : f₀ = f
  · subst heq
    exact ⟨_, List.mem_cons_self, ht, hd⟩
  · exact ⟨f₀, List.mem_cons_of_mem _ ((List.mem_erase_of_ne heq).mpr hf₀), ht, hd⟩

/-- The frames after one of them has called its next subscriber. -/
theorem Prompted.advance {s : State Tid} (hp : Prompted s) {f : Frame Tid} {x : Subscriber}
    {rest : List Subscriber} (hf : f ∈ s.frames) (hrest : f.rest = x :: rest) :
    ∀ f₁ ∈ s.advance f rest, s.replies f₁.deliver ≤ 1 ∨ ∀ x ∈ f₁.rest, x = .plain := by
  intro f₁ hf₁
  rcases List.mem_cons.mp hf₁ with rfl | hf₁
  · refine (hp.frames f hf).imp_right fun hall y hy => hall y ?_
    rw [hrest]
    exact List.mem_cons_of_mem _ hy
  · exact hp.frames f₁ (List.mem_of_mem_erase hf₁)

/-- **One step keeps it**, if new emissions are prompt. -/
theorem step_prompted {p : Tid} {s s' : State Tid} {a : Act Tid} (hp : Prompted s)
    (h : Inv p s) (ha : EmitsOn Prompt s a) (hs : step p s a = some s') : Prompted s' := by
  cases step_stepped h.paired hs with
  | emit => exact hp.begin h _ ha
  | exec => exact hp.begin h _ (.inl (Nat.le_refl _))
  | inline => exact hp
  | @plain f o rest hf hrest =>
    refine ⟨hp.advance hf hrest, hp.pending, ?_⟩
    intro t d hm
    rcases List.mem_cons.mp hm with heq | hm
    · -- the emitter itself replies, and its frame stays
      obtain ⟨rfl, rfl⟩ := Prod.mk.inj heq
      exact .inr ⟨_, List.mem_cons_self, rfl, rfl⟩
    · exact (hp.midway t d hm).imp_right (exists_advance rest)
  | @deferred f o rest hf hrest =>
    refine ⟨hp.advance hf hrest, ?_, fun t d hm => (hp.midway t d hm).imp_right (exists_advance rest)⟩
    intro d hd
    rcases List.mem_cons.mp hd with rfl | hd
    · rcases hp.frames f hf with hone | hall
      · exact hone
      · exact nomatch hall .deferred (by rw [hrest]; exact List.mem_cons_self)
    · exact hp.pending d hd
  | @leave f hf hrest hfree =>
    refine ⟨fun f₁ hf₁ => hp.frames f₁ (List.mem_of_mem_erase hf₁), hp.pending, ?_⟩
    intro t d hm
    refine (hp.midway t d hm).imp_right ?_
    rintro ⟨f₀, hf₀, rfl, rfl⟩
    -- the thread that leaves is not between two halves of a reply
    have hne : f₀ ≠ f := by
      rintro rfl
      simpa using List.find?_eq_none.mp hfree _ hm
    exact ⟨f₀, (List.mem_erase_of_ne hne).mpr hf₀, rfl, rfl⟩
  | @reply t d o hd =>
    refine ⟨hp.frames, fun d' hd' => hp.pending d' (List.mem_of_mem_erase hd'), ?_⟩
    intro t' d' hm
    rcases List.mem_cons.mp hm with heq | hm
    · obtain ⟨rfl, rfl⟩ := Prod.mk.inj heq
      exact .inl (hp.pending _ hd)
    · exact hp.midway t' d' hm
  | enqueue =>
    exact ⟨hp.frames, hp.pending, fun t d hm => hp.midway t d (List.mem_of_mem_erase hm)⟩
  | pop _ hpop =>
    obtain ⟨_, _, _, rfl⟩ := Post.pop_some hpop
    exact ⟨hp.frames, hp.pending, hp.midway⟩
  | @invoke _ d hd =>
    obtain ⟨c, cs, _, heq⟩ := h.paired.invoke_eq p hd
    refine ⟨hp.frames, hp.pending, ?_⟩
    intro t d' hm
    have hmem : (t, d') ∈ (s.post.invoke p d).2.midway := hm
    rw [heq] at hmem
    exact hp.midway t d' hmem
  | done => exact ⟨hp.frames, hp.pending, hp.midway⟩

/-- Every run whose emissions are prompt. -/
theorem runs_reach {p : Tid} {s : State Tid} {as : List (Act Tid)}
    (h : Runs (step p) (EmitsOn Prompt) (initial Tid) as s) : RepliesReach s := by
  have hinv := runs_inv h
  have hp : Inv p s ∧ Prompted s := by
    refine h.invariant (fun s => Inv p s ∧ Prompted s) ?_ ⟨initial_inv p, ?_⟩
    · rintro s a s' ⟨hi, hp⟩ ha hs
      exact ⟨step_inv hi hs, step_prompted hp hi ha hs⟩
    · exact ⟨fun f hf => (nomatch hf), fun d hd => (nomatch hd), fun t d hm => (nomatch hm)⟩
  exact ⟨fun d hd => hp.2.alive hinv hd, fun d howed hmid => hinv.queued howed hmid⟩

/-! ### The condition is necessary -/

variable {L : List Subscriber → Prop} {p : Tid} {d : Nat}

theorem midwayOf_nil {s : State Tid} (hm : s.post.midway = []) (t : Tid) :
    s.post.midwayOf t = none := by
  rw [Post.State.midwayOf, hm]
  rfl

/-- The half-made reply of `p` is completed. -/
theorem reach_enqueued {s : State Tid} (hm : s.post.midway = [(p, d)]) (ha : s.alive d = true) :
    ∃ s', step p s (.enqueue p) = some s' ∧ s'.post.midway = [] ∧ s'.frames = s.frames ∧
      s'.front = s.front ∧ s'.post.front = s.post.front ∧ s'.pending = s.pending ∧
      s'.replies = s.replies := by
  have hof : s.post.midwayOf p = some (p, d) := by simp [Post.State.midwayOf, hm]
  refine ⟨{ s with post := s.post.enqueue p d, heap := s.heap.acquire d }, ?_, ?_, rfl, rfl, rfl,
    rfl, rfl⟩
  · simp [step, hof, State.enqueue, ha]
  · simp [Post.State.enqueue, hm]

/-- An emission of `p` calls all its subscribers, and the deferred ones keep their replies for
    later. -/
theorem reach_called (rest : List Subscriber) {s : State Tid} (h : Inv p s)
    (hf : s.frames = [⟨p, d, rest⟩]) (hm : s.post.midway = []) :
    ∃ s', Reachable (step p) (EmitsOn L) s s' ∧ s'.frames = [⟨p, d, []⟩] ∧
      s'.post.midway = [] ∧ s'.front = s.front ∧ s'.post.front = s.post.front ∧
      s'.pending.count d = s.pending.count d + rest.count .deferred ∧
      s'.replies = s.replies := by
  induction rest generalizing s with
  | nil => exact ⟨s, .refl s, hf, hm, rfl, rfl, by simp, rfl⟩
  | cons x rest ih =>
    have hof : s.frameOf p d = some ⟨p, d, x :: rest⟩ := by simp [State.frameOf, hf]
    have ha : s.alive d = true := h.alive_of_frame (f := ⟨p, d, x :: rest⟩) (by simp [hf])
    cases x with
    | plain =>
      -- both halves of the reply at once
      have hcall : step p s (.call p d .returned) = some { s with
          post := s.post.pushContext p d .returned
          frames := s.advance ⟨p, d, .plain :: rest⟩ rest } := by
        simp [step, midwayOf_nil hm, hof, State.call, ha]
      have hinv := step_inv h hcall
      obtain ⟨s₂, henq, hm₂, hf₂, hfront₂, hpf₂, hpend₂, hrep₂⟩ :=
        reach_enqueued (p := p) (d := d) (s := { s with
          post := s.post.pushContext p d .returned
          frames := s.advance ⟨p, d, .plain :: rest⟩ rest })
        (by simp [Post.State.pushContext, hm]) ha
      obtain ⟨s', hreach, hf', hm', hfront', hpf', hpend', hrep'⟩ :=
        ih (step_inv hinv henq) (by rw [hf₂]; simp [State.advance, hf]) hm₂
      refine ⟨s', .head hcall trivial (.head henq trivial hreach), hf', hm', hfront'.trans hfront₂,
        hpf'.trans hpf₂, ?_, hrep'.trans hrep₂⟩
      rw [hpend', hpend₂]
      simp
    | deferred =>
      -- the reply is only noted
      have hcall : step p s (.call p d .returned) = some { s with
          pending := d :: s.pending
          frames := s.advance ⟨p, d, .deferred :: rest⟩ rest } := by
        simp [step, midwayOf_nil hm, hof, State.call]
      obtain ⟨s', hreach, hf', hm', hfront', hpf', hpend', hrep'⟩ :=
        ih (step_inv h hcall) (by simp [State.advance, hf]) hm
      refine ⟨s', .head hcall trivial hreach, hf', hm', hfront', hpf', ?_, hrep'⟩
      rw [hpend']
      simp
      omega

/-- One round of the polling thread. -/
theorem reach_round {s : State Tid} (h : Inv p s) {q : List Nat} (hq : s.post.queue = d :: q)
    (hfront : s.front = none) (hpf : s.post.front = none) :
    ∃ s', Reachable (step p) (EmitsOn L) s s' ∧ s'.post.queue = q ∧
      s'.post.midway = s.post.midway ∧ s'.front = none ∧ s'.post.front = none ∧
      s'.frames = s.frames ∧ s'.pending = s.pending ∧ s'.replies = s.replies := by
  obtain ⟨s₁, hs₁⟩ : ∃ s₁, s₁ = { s with
      post := { s.post with queue := q, front := some d }, front := some d } := ⟨_, rfl⟩
  have hpop : step p s .pop = some s₁ := by
    simp [step, State.pop, hfront, Post.State.pop, hpf, hq, hs₁]
  have hd₁ : s₁.post.front = some d := by rw [hs₁]
  obtain ⟨c, cs, _, heq⟩ := (step_inv h hpop).paired.invoke_eq p hd₁
  obtain ⟨s₂, hs₂⟩ : ∃ s₂, s₂ = { s₁ with post := (s₁.post.invoke p d).2 }.dispose d := ⟨_, rfl⟩
  have hinvoke : step p s₁ (.invoke .returned) = some s₂ := by
    simp only [step, State.invoke, hd₁, heq, hs₂]
  have hpf₂ : s₂.post.front = none := by
    rw [hs₂, heq]
    rfl
  have hfront₂ : s₂.front = some d := by
    rw [hs₂, hs₁]
    rfl
  have hdone : step p s₂ .done = some { s₂ with front := none, heap := s₂.heap.release d } := by
    simp only [step, State.done, hpf₂, hfront₂]
  refine ⟨_, .head hpop trivial (.head hinvoke trivial (.head hdone trivial (.refl _))),
    ?_, ?_, rfl, hpf₂, ?_, ?_, ?_⟩
  · show s₂.post.queue = q
    rw [hs₂, heq, hs₁]
    rfl
  · show s₂.post.midway = s.post.midway
    rw [hs₂, heq, hs₁]
    rfl
  · show s₂.frames = s.frames
    rw [hs₂, hs₁]
    rfl
  · show s₂.pending = s.pending
    rw [hs₂, hs₁]
    rfl
  · show s₂.replies = s.replies
    rw [hs₂, hs₁]
    rfl

/-- The polling thread works off the queue. -/
theorem reach_polled (q : List Nat) {s : State Tid} (h : Inv p s) (hq : s.post.queue = q)
    (hfront : s.front = none) (hpf : s.post.front = none) :
    ∃ s', Reachable (step p) (EmitsOn L) s s' ∧ s'.post.queue = [] ∧
      s'.post.midway = s.post.midway ∧ s'.front = none ∧ s'.post.front = none ∧
      s'.frames = s.frames ∧ s'.pending = s.pending ∧ s'.replies = s.replies := by
  induction q generalizing s with
  | nil => exact ⟨s, .refl s, hq, rfl, hfront, hpf, rfl, rfl, rfl⟩
  | cons d q ih =>
    obtain ⟨s₁, hr₁, hq₁, hm₁, hfront₁, hpf₁, hf₁, hpend₁, hrep₁⟩ := reach_round h hq hfront hpf
    have hinv₁ := hr₁.invariant (Inv p) (fun _ _ _ hi _ hs => step_inv hi hs) h
    obtain ⟨s', hr', hq', hm', hfront', hpf', hf', hpend', hrep'⟩ := ih hinv₁ hq₁ hfront₁ hpf₁
    exact ⟨s', hr₁.trans hr', hq', hm'.trans hm₁, hfront', hpf', hf'.trans hf₁,
      hpend'.trans hpend₁, hrep'.trans hrep₁⟩

/-- One deferred subscriber replies. -/
theorem reach_replied {s : State Tid} (hm : s.post.midway = []) (hp : d ∈ s.pending)
    (ha : s.alive d = true) :
    ∃ s', Reachable (step p) (EmitsOn L) s s' ∧ s'.post.midway = [] ∧ s'.frames = s.frames ∧
      s'.front = s.front ∧ s'.post.front = s.post.front ∧
      s'.pending.count d + 1 = s.pending.count d ∧ s'.replies = s.replies := by
  have hreply : step p s (.reply p d .returned) = some { s with
      post := s.post.pushContext p d .returned, pending := s.pending.erase d } := by
    simp [step, midwayOf_nil hm, State.reply, hp, ha]
  obtain ⟨s', henq, hm', hf', hfront', hpf', hpend', hrep'⟩ :=
    reach_enqueued (p := p) (d := d)
      (s := { s with post := s.post.pushContext p d .returned, pending := s.pending.erase d })
      (by simp [Post.State.pushContext, hm]) ha
  refine ⟨s', .head hreply trivial (.head henq trivial (.refl s')), hm', hf', hfront', hpf', ?_,
    hrep'⟩
  have hpos := List.count_pos_iff.mpr hp
  rw [hpend', List.count_erase_self]
  omega

omit [DecidableEq Tid] in
/-- After a call of its function, a `Deliver` with no emission in progress, not queued and not
    being worked on, is destroyed. -/
theorem Inv.dead {s : State Tid} (h : Inv p s) (hf : s.frames = []) (hq : s.post.queue = [])
    (hfront : s.front = none) (hc : 0 < s.called d) : s.alive d = false := by
  by_contra ha
  rw [Bool.not_eq_false] at ha
  have hmem : d ∈ s.owners := (h.counted.alive_iff d).mp ha
  simp only [State.owners, hf, hq, hfront, List.append_nil, List.map_nil,
    Option.toList_none] at hmem
  have hz := ((h.registered d).mp hmem).2
  omega

/-- The emitter has left, and no subscriber is called any more; the queue is worked off. -/
theorem reach_left {s : State Tid} (h : Inv p s) (hf : s.frames = [⟨p, d, []⟩])
    (hm : s.post.midway = []) (hfront : s.front = none) (hpf : s.post.front = none) :
    ∃ s', Reachable (step p) (EmitsOn L) s s' ∧ Inv p s' ∧ s'.frames = [] ∧
      s'.post.queue = [] ∧ s'.post.midway = [] ∧ s'.front = none ∧ s'.post.front = none ∧
      s'.pending = s.pending ∧ s'.replies = s.replies := by
  have hof : s.frameOf p d = some ⟨p, d, []⟩ := by simp [State.frameOf, hf]
  have hleave : step p s (.leave p d) = some { s with
      frames := s.frames.erase ⟨p, d, []⟩, heap := s.heap.release d } := by
    simp [step, midwayOf_nil hm, hof, State.leave]
  have hinv := step_inv h hleave
  obtain ⟨s', hr, hq', hm', hfront', hpf', hf', hpend', hrep'⟩ :=
    reach_polled (L := L) _ hinv rfl hfront hpf
  have hreach : Reachable (step p) (EmitsOn L) s s' := .head hleave trivial hr
  refine ⟨s', hreach, ?_, hf'.trans (by simp [hf]), hq', hm'.trans hm, hfront', hpf', hpend', hrep'⟩
  exact hreach.invariant (Inv p) (fun _ _ _ hi _ hs => step_inv hi hs) h

/-- An emission that is not prompt can end with a reply outstanding although the function was
    called: all subscribers are called, one of them replies if none did so far, the emitter leaves
    and the queue is worked off. -/
theorem reach_outlived {subs : List Subscriber} (hsubs : ¬ Prompt subs) {s : State Tid}
    (h : Inv p s) (hf : s.frames = [⟨p, d, subs⟩]) (hm : s.post.midway = [])
    (hfront : s.front = none) (hpf : s.post.front = none) (hpend : s.pending = [])
    (hrep : s.replies d = subs.length) :
    ∃ s', Reachable (step p) (EmitsOn L) s s' ∧ d ∈ s'.pending ∧ s'.alive d = false := by
  obtain ⟨hlen, x, hx, hne⟩ : 1 < subs.length ∧ ∃ x ∈ subs, x ≠ .plain := by
    simpa [Prompt] using hsubs
  have hdef : 0 < subs.count .deferred := by
    cases x with
    | plain => exact absurd rfl hne
    | deferred => exact List.count_pos_iff.mpr hx
  obtain ⟨s₁, hr₁, hf₁, hm₁, hfront₁, hpf₁, hpend₁, hrep₁⟩ := reach_called (L := L) subs h hf hm
  rw [hpend, List.count_nil, Nat.zero_add] at hpend₁
  have hinv₁ := hr₁.invariant (Inv p) (fun _ _ _ hi _ hs => step_inv hi hs) h
  -- some reply is made, and some is not
  obtain ⟨s₂, hr₂, hf₂, hm₂, hfront₂, hpf₂, hpos₂, hlt₂, hrep₂⟩ :
      ∃ s₂, Reachable (step p) (EmitsOn L) s₁ s₂ ∧ s₂.frames = [⟨p, d, []⟩] ∧
        s₂.post.midway = [] ∧ s₂.front = none ∧ s₂.post.front = none ∧
        0 < s₂.pending.count d ∧ s₂.pending.count d < subs.length ∧ s₂.replies = s₁.replies := by
    by_cases hall : subs.count .deferred < subs.length
    · exact ⟨s₁, .refl s₁, hf₁, hm₁, hfront₁.trans hfront, hpf₁.trans hpf, by omega, by omega, rfl⟩
    · have hle : subs.count .deferred ≤ subs.length := List.count_le_length
      have ha : s₁.alive d = true := hinv₁.alive_of_frame (f := ⟨p, d, []⟩) (by simp [hf₁])
      obtain ⟨s₂, hr₂, hm₂, hf₂, hfront₂, hpf₂, hpend₂, hrep₂⟩ :=
        reach_replied (L := L) (p := p) hm₁ (List.count_pos_iff.mp (by omega)) ha
      exact ⟨s₂, hr₂, hf₂.trans hf₁, hm₂, hfront₂.trans (hfront₁.trans hfront),
        hpf₂.trans (hpf₁.trans hpf), by omega, by omega, hrep₂⟩
  have hinv₂ := hr₂.invariant (Inv p) (fun _ _ _ hi _ hs => step_inv hi hs) hinv₁
  obtain ⟨s', hr', hinv', hf', hq', hm', hfront', hpf', hpend', hrep'⟩ :=
    reach_left (L := L) hinv₂ hf₂ hm₂ hfront₂ hpf₂
  refine ⟨s', hr₁.trans (hr₂.trans hr'), ?_, ?_⟩
  · rw [hpend']
    exact List.count_pos_iff.mp hpos₂
  · -- the replies made were all called for
    refine hinv'.dead hf' hq' hfront' ?_
    have hbal := hinv'.balance d
    rw [hrep', hrep₂, hrep₁, hrep] at hbal
    simp only [State.owed, hf', hpend', remaining, List.map_nil, List.sum_nil, Post.State.due, hm',
      hq', hpf', Option.toList_none, List.count_nil] at hbal
    omega

/-- **A temporary `Deliver` outlives its replies exactly when every emission is prompt**: the
    program emits on `Signals` with subscribers `L`, in any order of its threads. -/
theorem replies_reach_iff (p : Tid) (L : List Subscriber → Prop) :
    (∀ as s, Runs (step p) (EmitsOn L) (initial Tid) as s → RepliesReach s) ↔
      ∀ subs, L subs → Prompt subs := by
  constructor
  · intro hall subs hL
    by_contra hsubs
    have hemit : step p (initial Tid) (.emit p subs) = some ((initial Tid).begin p subs) := by
      simp [step, initial, Post.State.midwayOf, Post.initial]
    have hinv := step_inv (initial_inv p) hemit
    obtain ⟨s', hr, hd, hdead⟩ := reach_outlived (L := L) (d := 0) hsubs hinv rfl rfl rfl rfl rfl
      (by simp [State.begin, initial, SharedHeap.empty])
    obtain ⟨as, has⟩ : Reachable (step p) (EmitsOn L) (initial Tid) s' := .head hemit hL hr
    have halive := (hall as s' has).alive 0 (.inr (.inl hd))
    rw [hdead] at halive
    cases halive
  · intro hL as s h
    refine runs_reach (h.mono ?_)
    intro s a ha
    cases a with
    | emit t subs => exact hL subs ha
    | _ => trivial

end RtCharger.Os.Reply
