import RtCharger.Os.PostDelivery

namespace RtCharger.Os.Observable

open StepSystem

/-!
# What a deferred observer of an `Observable` sees

`Observable::operator=(const T newVal)` emits `onChanged(newVal)`, a `Signals<void(const T&)>`
(`observable.hxx`).  A `Deliver` subscribed to it keeps a context of type `std::tuple<const T&>`:
a reference to the parameter `newVal` of the assigning call, which is gone once the call has
returned.

The assignments come one after the other, on any threads; the polling thread may run between
any two of their steps.

* `goOn` — the body of `operator=`, statement by statement;
* `deferred_sees_nothing` — a notification that runs after the assignment has returned;
* `Timely` — a notification runs before the assignment that caused it has returned;
* `seen_iff_timely` — the observer sees the assigned values exactly when all its notifications
  are timely.
-/

/-- Where an assignment is. -/
inductive Pc where
  /-- At the test `value == newVal`. -/
  | test
  /-- In `onChanged(newVal)`, with these `Deliver`s to come. -/
  | notify (rest : List Nat)
  /-- At `return newVal`. -/
  | leave
deriving DecidableEq, Repr

/-- An assignment in progress: its thread and the cell of its parameter `newVal`. -/
structure Assignment (Tid : Type) where
  thread : Tid
  cell : Nat
  pc : Pc
deriving DecidableEq, Repr

/-- An `Observable`, the `Post` of its observers and the parameters of its assignments. -/
structure State (Tid T : Type) where
  /-- The observers' `Post`.  The argument of a context is a reference: a cell. -/
  post : Post.State Tid Nat
  /-- The parameters `newVal` that exist. -/
  cells : Nat → Option T
  value : T
  assigning : Option (Assignment Tid)
  /-- The parameters of all assignments so far; the `i`-th one is or was in cell `i`. -/
  params : List T
  /-- The values of the changing assignments, in order. -/
  changes : List T
  /-- The deferred notifications, in order: the `Deliver` and what its function found behind the
      reference, nothing if the parameter is gone. -/
  notified : List (Nat × Option T)

/-- Before the first assignment. -/
def initial (Tid : Type) {T : Type} (value : T) : State Tid T :=
  ⟨Post.initial Tid Nat, fun _ => none, value, none, [], [], []⟩

variable {Tid T : Type}

/-- The call of `operator=`: the parameter comes to life. -/
def State.assign (s : State Tid T) (t : Tid) (v : T) : State Tid T :=
  { s with cells := Function.update s.cells s.params.length (some v)
           params := s.params ++ [v]
           assigning := some ⟨t, s.params.length, .test⟩ }

/-- `front->invoke()` of the thread `self`. -/
def State.invoke (s : State Tid T) (self : Tid) : Option (State Tid T) :=
  match s.post.front with
  | none   => none
  | some d =>
    match s.post.invoke self d with
    | (none, post)   => some { s with post := post }
    | (some c, post) =>
      some { s with post := post, notified := s.notified ++ [(d, s.cells c.args)] }

/-- The steps of the assigning threads and of the polling thread. -/
inductive Act (Tid T : Type) where
  | assign (t : Tid) (v : T)
  | goOn
  | pop
  | invoke
deriving DecidableEq, Repr

variable [DecidableEq Tid] [DecidableEq T]

/-- The next step of the assignment `a`; `onChanged` has the `Deliver`s `subs`. -/
def State.goOn (s : State Tid T) (subs : List Nat) (a : Assignment Tid) : Option (State Tid T) :=
  match a.pc with
  | .test =>
    match s.cells a.cell with
    | none   => none
    | some v =>
      -- `if(value == newVal) return newVal`
      if s.value = v then some { s with assigning := some { a with pc := .leave } }
      else some { s with value := v, changes := s.changes ++ [v]
                         assigning := some { a with pc := .notify subs } }
  | .notify rest =>
    match s.post.midwayOf a.thread, rest with
    -- the second half of `Deliver::addTo`'s closure
    | some m, _      => some { s with post := s.post.enqueue a.thread m.2 }
    | none, []       => some { s with assigning := some { a with pc := .leave } }
    | none, d :: ds  =>
      some { s with post := s.post.pushContext a.thread d a.cell
                    assigning := some { a with pc := .notify ds } }
  -- `newVal` goes out of scope; the contexts that refer to it stay
  | .leave =>
    some { s with cells := Function.update s.cells a.cell none, assigning := none }

/-- One step; `self` is the polling thread. -/
def step (self : Tid) (subs : List Nat) (s : State Tid T) : Act Tid T → Option (State Tid T)
  | .assign t v =>
    match s.assigning with
    | none   => some (s.assign t v)
    | some _ => none
  | .goOn => s.assigning.bind fun a => s.goOn subs a
  | .pop => s.post.pop.map fun r => { s with post := r.2 }
  | .invoke => s.invoke self

/-- What the function of the `Deliver` `d` was called with. -/
def State.seenBy (s : State Tid T) (d : Nat) : List (Option T) :=
  (s.notified.filter fun n => decide (n.1 = d)).map Prod.snd

/-- The `i`-th notification of `d` was called with the value of the `i`-th changing
    assignment. -/
def Seen (s : State Tid T) (d : Nat) : Prop := s.seenBy d <+: s.changes.map some

/-- A notification of `d` runs while the assignment that it refers to has not returned. -/
def Timely (d : Nat) (s : State Tid T) : Act Tid T → Prop
  | .invoke => s.post.front = some d → ∀ c ∈ (s.post.ctxQueue d).head?, (s.cells c.args).isSome
  | _       => True

instance (d : Nat) (s : State Tid T) (a : Act Tid T) : Decidable (Timely d s a) := by
  cases a <;> unfold Timely <;> infer_instance

/-- **A notification that comes too late.**  The assignment of `5` returns before the polling
    thread gets to run. -/
theorem deferred_sees_nothing : ∃ as s, Runs (step 0 [7]) anyAction (initial Nat 3) as s ∧
    ¬ Seen s 7 := by
  refine ⟨[.assign 1 5] ++ List.replicate 5 .goOn ++ [.pop, .invoke], _, runs_get (by rfl), ?_⟩
  unfold Seen
  decide

/-! ### What a step does -/

/-- The step of the assignment `a`, with its effect. -/
inductive Went (subs : List Nat) (s : State Tid T) (a : Assignment Tid) : State Tid T → Prop
  | same (hpc : a.pc = .test) : Went subs s a { s with assigning := some { a with pc := .leave } }
  | change {v : T} (hpc : a.pc = .test) (hv : s.cells a.cell = some v) :
      Went subs s a { s with value := v, changes := s.changes ++ [v]
                             assigning := some { a with pc := .notify subs } }
  | enqueue {d : Nat} (hm : (a.thread, d) ∈ s.post.midway) :
      Went subs s a { s with post := s.post.enqueue a.thread d }
  | push {d : Nat} {ds : List Nat} (hpc : a.pc = .notify (d :: ds)) :
      Went subs s a { s with post := s.post.pushContext a.thread d a.cell
                             assigning := some { a with pc := .notify ds } }
  | notified (hpc : a.pc = .notify []) :
      Went subs s a { s with assigning := some { a with pc := .leave } }
  | leave (hpc : a.pc = .leave) :
      Went subs s a { s with cells := Function.update s.cells a.cell none, assigning := none }

theorem goOn_went {subs : List Nat} {s s' : State Tid T} {a : Assignment Tid}
    (h : s.goOn subs a = some s') : Went subs s a s' := by
  unfold State.goOn at h
  cases hpc : a.pc with
  | test =>
    simp only [hpc] at h
    split at h
    · cases h
    · rename_i v hv
      split at h
      · obtain rfl := Option.some.inj h
        exact .same hpc
      · obtain rfl := Option.some.inj h
        exact .change hpc hv
  | notify rest =>
    simp only [hpc] at h
    split at h
    · rename_i m hm
      obtain rfl := Option.some.inj h
      obtain ⟨hmem, ht⟩ := Post.midwayOf_some hm
      exact .enqueue (by rw [← ht]; exact hmem)
    · obtain rfl := Option.some.inj h
      exact .notified hpc
    · obtain rfl := Option.some.inj h
      exact .push hpc
  | leave =>
    simp only [hpc] at h
    obtain rfl := Option.some.inj h
    exact .leave hpc

omit [DecidableEq Tid] [DecidableEq T] in
/-- `invoke` calls the function with what is behind the reference of the oldest context. -/
theorem invoke_some {self : Tid} {s s' : State Tid T} (hp : Post.Paired s.post)
    (h : s.invoke self = some s') :
    ∃ d c, s.post.front = some d ∧ (s.post.ctxQueue d).head? = some c ∧
      (s.post.invoke self d).2.calls = s.post.calls ++ [c] ∧
      s' = { s with post := (s.post.invoke self d).2
                    notified := s.notified ++ [(d, s.cells c.args)] } := by
  unfold State.invoke at h
  split at h
  · cases h
  · rename_i d hd
    obtain ⟨c, cs, hcs, heq⟩ := hp.invoke_eq self hd
    refine ⟨d, c, hd, by rw [hcs]; rfl, by rw [heq]; simp [Post.State.calls], ?_⟩
    rw [heq] at h ⊢
    exact (Option.some.inj h).symm

/-! ### What was emitted to a `Deliver` -/

section

omit [DecidableEq Tid] [DecidableEq T]

/-- The change that the assignment in progress has not emitted to `d` yet. -/
def State.owedTo (s : State Tid T) (d : Nat) : List (Option T) :=
  match s.assigning with
  | some ⟨_, cell, .notify rest⟩ => if d ∈ rest then [s.params[cell]?] else []
  | _ => []

/-- The parameters that the contexts `cs` refer to. -/
def State.referents (s : State Tid T) (cs : List (Post.Context Nat)) : List (Option T) :=
  cs.map fun c => s.params[c.args]?

/-- The contexts of `d` refer to the parameters of the changing assignments, in order. -/
structure Inv (p : Tid) (d : Nat) (s : State Tid T) : Prop where
  paired : Post.Paired s.post
  logged : Post.Logged p s.post
  cells : ∀ k v, s.cells k = some v → s.params[k]? = some v
  args : ∀ c ∈ s.post.pushed, c.args < s.params.length
  cell : ∀ a, s.assigning = some a → a.cell < s.params.length
  rest : ∀ a ds, s.assigning = some a → a.pc = .notify ds → ds.count d ≤ 1
  order : s.referents (Post.ofDeliver d s.post.pushed) ++ s.owedTo d = s.changes.map some

theorem initial_inv (p : Tid) (d : Nat) (value : T) : Inv p d (initial Tid value) := by
  refine ⟨Post.initial_paired Tid Nat, Post.initial_logged p, ?_, ?_, ?_, ?_, rfl⟩
  · exact fun k v h => nomatch h
  · exact fun c hc => nomatch hc
  · exact fun a h => nomatch h
  · exact fun a ds h => nomatch h

/-- A new parameter changes no earlier referent. -/
theorem Inv.referents_assign {p : Tid} {d : Nat} {s : State Tid T} (h : Inv p d s) (t : Tid) (v : T)
    {cs : List (Post.Context Nat)} (hcs : ∀ c ∈ cs, c ∈ s.post.pushed) :
    (s.assign t v).referents cs = s.referents cs := by
  refine List.map_congr_left fun c hc => ?_
  exact List.getElem?_append_left (h.args c (hcs c hc))

theorem Inv.assign {p : Tid} {d : Nat} {s : State Tid T} (h : Inv p d s) (t : Tid) (v : T)
    (hnone : s.assigning = none) : Inv p d (s.assign t v) := by
  have hlen : (s.assign t v).params.length = s.params.length + 1 := by simp [State.assign]
  refine ⟨h.paired, h.logged, ?_, ?_, ?_, ?_, ?_⟩
  · intro k w hk
    show (s.params ++ [v])[k]? = some w
    -- the new cell holds the new parameter, the others are older ones
    by_cases hkl : k = s.params.length
    · subst hkl
      have hv : (some v : Option T) = some w := by simpa [State.assign] using hk
      rw [List.getElem?_concat_length]
      exact hv
    · have hw : s.cells k = some w := by simpa [State.assign, hkl] using hk
      have hlt := (List.getElem?_eq_some_iff.mp (h.cells k w hw)).1
      rw [List.getElem?_append_left hlt]
      exact h.cells k w hw
  · intro c hc
    rw [hlen]
    exact Nat.lt_succ_of_lt (h.args c hc)
  · intro a ha
    rw [hlen]
    cases ha
    exact Nat.lt_succ_self _
  · intro a ds ha hpc
    cases ha
    cases hpc
  · have hord := h.order
    have howed : s.owedTo d = [] := by rw [State.owedTo, hnone]
    rw [howed, List.append_nil] at hord
    have hmem : ∀ c ∈ Post.ofDeliver d s.post.pushed, c ∈ s.post.pushed :=
      fun c hc => List.mem_of_mem_filter hc
    show (s.assign t v).referents (Post.ofDeliver d s.post.pushed) ++ [] = s.changes.map some
    rw [h.referents_assign t v hmem, List.append_nil, hord]

/-- A step of the assignment `a` that pushes no context and changes nothing. -/
theorem Inv.goes {p : Tid} {d : Nat} {s : State Tid T} (h : Inv p d s) {a : Assignment Tid}
    (ha : s.assigning = some a) {pc : Pc} (hpc : ∀ ds, pc ≠ .notify ds)
    (howed : s.owedTo d = []) : Inv p d { s with assigning := some { a with pc := pc } } := by
  refine ⟨h.paired, h.logged, h.cells, h.args, ?_, ?_, ?_⟩
  · intro a' ha'
    cases ha'
    exact h.cell a ha
  · intro a' ds ha' hds
    cases ha'
    exact absurd hds (hpc ds)
  · have hord := h.order
    rw [howed] at hord
    have hnone : State.owedTo { s with assigning := some { a with pc := pc } } d = [] := by
      cases pc with
      | notify ds => exact absurd rfl (hpc ds)
      | _ => rfl
    rw [hnone]
    exact hord

/-- The assignment changes the value and has everything to emit. -/
theorem Inv.change {p : Tid} {d : Nat} {s : State Tid T} {subs : List Nat} (h : Inv p d s)
    {a : Assignment Tid} (ha : s.assigning = some a) (hpc : a.pc = .test) {v : T}
    (hv : s.cells a.cell = some v) (hd : subs.count d = 1) :
    Inv p d { s with value := v, changes := s.changes ++ [v]
                     assigning := some { a with pc := .notify subs } } := by
  refine ⟨h.paired, h.logged, h.cells, h.args, ?_, ?_, ?_⟩
  · intro a' ha'
    cases ha'
    exact h.cell a ha
  · intro a' ds ha' hds
    cases ha'
    cases hds
    exact Nat.le_of_eq hd
  · have hord := h.order
    have hnone : s.owedTo d = [] := by
      obtain ⟨t, cell, pc⟩ := a
      subst hpc
      rw [State.owedTo, ha]
    have hmem : d ∈ subs := List.count_pos_iff.mp (by omega)
    have howed : State.owedTo { s with value := v, changes := s.changes ++ [v]
                                       assigning := some { a with pc := .notify subs } } d =
        [some v] := by
      simp only [State.owedTo, if_pos hmem]
      rw [h.cells a.cell v hv]
    rw [hnone, List.append_nil] at hord
    rw [howed]
    show s.referents _ ++ [some v] = (s.changes ++ [v]).map some
    rw [List.map_append, ← hord]
    rfl

/-- The assignment emits to one more `Deliver`. -/
theorem Inv.push {p : Tid} {d : Nat} {s : State Tid T} (h : Inv p d s) {a : Assignment Tid}
    (ha : s.assigning = some a) {d' : Nat} {ds : List Nat} (hpc : a.pc = .notify (d' :: ds)) :
    Inv p d { s with post := s.post.pushContext a.thread d' a.cell
                     assigning := some { a with pc := .notify ds } } := by
  have hcount := h.rest a _ ha hpc
  have hcell := h.cell a ha
  refine ⟨h.paired.push _ _ _, h.logged.push _ _ _, h.cells, ?_, ?_, ?_, ?_⟩
  · intro c hc
    rcases List.mem_append.mp hc with hc | hc
    · exact h.args c hc
    · rw [List.mem_singleton.mp hc]
      exact hcell
  · intro a' ha'
    cases ha'
    exact hcell
  · intro a' ds' ha' hds
    cases ha'
    cases hds
    rw [List.count_cons] at hcount
    omega
  · have hord := h.order
    obtain ⟨t, cell, pc⟩ := a
    subst hpc
    show s.referents (Post.ofDeliver d (s.post.pushed ++ [⟨s.post.pushed.length, d', cell⟩])) ++
      (if d ∈ ds then [s.params[cell]?] else []) = s.changes.map some
    rw [← hord, State.owedTo, ha, Post.ofDeliver_append]
    simp only [State.referents, List.map_append, List.append_assoc]
    refine congrArg _ ?_
    by_cases hd : d = d'
    · -- `d` has its context now, and is not subscribed again
      subst hd
      rw [List.count_cons_self] at hcount
      have hnot : d ∉ ds := List.count_eq_zero.mp (by omega)
      simp [hnot, Post.ofDeliver]
    · rw [Post.ofDeliver_other (by exact hd)]
      simp [hd]

end

/-- **Every step keeps the invariant.** -/
theorem step_inv {p : Tid} {d : Nat} {subs : List Nat} {s s' : State Tid T} {a : Act Tid T}
    (hd : subs.count d = 1) (h : Inv p d s) (hs : step p subs s a = some s') : Inv p d s' := by
  cases a with
  | assign t v =>
    simp only [step] at hs
    split at hs
    · rename_i hnone
      obtain rfl := Option.some.inj hs
      exact h.assign t v hnone
    · cases hs
  | goOn =>
    obtain ⟨a, ha, hgo⟩ := Option.bind_eq_some_iff.mp hs
    have howed : ∀ pc, a.pc = pc → (∀ d' ds, pc ≠ .notify (d' :: ds)) → s.owedTo d = [] := by
      intro pc hpc hno
      obtain ⟨t, cell, pc'⟩ := a
      subst hpc
      cases pc' with
      | notify ds =>
        cases ds with
        | nil => simp [State.owedTo, ha]
        | cons d' ds => exact absurd rfl (hno d' ds)
      | _ => simp [State.owedTo, ha]
    cases goOn_went hgo with
    | same hpc => exact h.goes ha (by simp) (howed _ hpc (by simp))
    | notified hpc => exact h.goes ha (by simp) (howed _ hpc (by simp))
    | change hpc hv => exact h.change ha hpc hv hd
    | push hpc => exact h.push ha hpc
    | enqueue hm =>
      exact ⟨h.paired.enqueue hm, ⟨h.logged.order, h.logged.ids, h.logged.thread⟩, h.cells, h.args,
        h.cell, h.rest, h.order⟩
    | leave hpc =>
      refine ⟨h.paired, h.logged, ?_, h.args, nofun, nofun, ?_⟩
      · intro k v hk
        by_cases hkc : k = a.cell
        · simp [hkc] at hk
        · exact h.cells k v (by simpa [hkc] using hk)
      · have hord := h.order
        rw [howed _ hpc (by simp)] at hord
        exact hord
  | pop =>
    obtain ⟨⟨d', post⟩, hp, rfl⟩ := Option.map_eq_some_iff.mp hs
    have hpaired := h.paired.pop hp
    obtain ⟨_, q, _, rfl⟩ := Post.pop_some hp
    exact ⟨hpaired, ⟨h.logged.order, h.logged.ids, h.logged.thread⟩, h.cells, h.args, h.cell, h.rest,
      h.order⟩
  | invoke =>
    obtain ⟨d', c, hf, _, _, rfl⟩ := invoke_some h.paired hs
    have hpushed : (s.post.invoke p d').2.pushed = s.post.pushed := by
      unfold Post.State.invoke
      split <;> rfl
    refine ⟨h.paired.invoke p hf, h.logged.invoke h.paired hf, h.cells, ?_, h.cell, h.rest, ?_⟩
    · rw [hpushed]
      exact h.args
    · rw [hpushed]
      exact h.order

/-! ### What the observer sees -/

/-- All the assigning threads and the polling thread do between two calls of a function leaves the
    notifications alone. -/
theorem step_frame {p : Tid} {subs : List Nat} {s s' : State Tid T} {a : Act Tid T}
    (hs : step p subs s a = some s') (ha : a ≠ .invoke) :
    s'.notified = s.notified ∧ s'.post.calls = s.post.calls := by
  cases a with
  | assign t v =>
    simp only [step] at hs
    split at hs
    · obtain rfl := Option.some.inj hs
      exact ⟨rfl, rfl⟩
    · cases hs
  | goOn =>
    obtain ⟨a, _, hgo⟩ := Option.bind_eq_some_iff.mp hs
    cases goOn_went hgo <;> exact ⟨rfl, rfl⟩
  | pop =>
    obtain ⟨⟨d', post⟩, hp, rfl⟩ := Option.map_eq_some_iff.mp hs
    obtain ⟨_, q, _, rfl⟩ := Post.pop_some hp
    exact ⟨rfl, rfl⟩
  | invoke => exact absurd rfl ha

omit [DecidableEq Tid] [DecidableEq T] in
theorem seenBy_append (s : State Tid T) (post : Post.State Tid Nat) (d d' : Nat) (x : Option T) :
    State.seenBy { s with post := post, notified := s.notified ++ [(d', x)] } d =
      s.seenBy d ++ if d' = d then [x] else [] := by
  by_cases hd : d' = d <;> simp [State.seenBy, hd]

/-- What was seen stays seen. -/
theorem step_seenBy {p : Tid} {d : Nat} {subs : List Nat} {s s' : State Tid T} {a : Act Tid T}
    (h : Inv p d s) (hs : step p subs s a = some s') : s.seenBy d <+: s'.seenBy d := by
  by_cases ha : a = .invoke
  · subst ha
    obtain ⟨d', c, _, _, _, rfl⟩ := invoke_some h.paired hs
    rw [seenBy_append]
    exact List.prefix_append _ _
  · have heq : s'.seenBy d = s.seenBy d := by
      rw [State.seenBy, (step_frame hs ha).1, State.seenBy]
    exact ⟨[], by rw [List.append_nil, heq]⟩

/-- **A timely step shows the observer the parameter of the assignment that it is told of.** -/
theorem step_seen {p : Tid} {d : Nat} {subs : List Nat} {s s' : State Tid T} {a : Act Tid T}
    (h : Inv p d s) (ht : Timely d s a) (hs : step p subs s a = some s')
    (hseen : s.seenBy d = s.referents (Post.ofDeliver d s.post.calls)) :
    s'.seenBy d = s'.referents (Post.ofDeliver d s'.post.calls) := by
  by_cases ha : a = .invoke
  · subst ha
    obtain ⟨d', c, hf, hc, hcalls, rfl⟩ := invoke_some h.paired hs
    have hdeliver : c.deliver = d' := h.logged.deliver_eq (List.mem_of_mem_head? hc)
    rw [seenBy_append, hseen]
    show _ = s.referents (Post.ofDeliver d (s.post.invoke p d').2.calls)
    rw [hcalls, Post.ofDeliver_append, State.referents, State.referents, List.map_append]
    by_cases hd : d' = d
    · -- the parameter still exists, so the reference finds its value
      subst hd
      obtain ⟨v, hv⟩ := Option.isSome_iff_exists.mp (ht hf c hc)
      rw [if_pos rfl, ← hdeliver, Post.ofDeliver_self, List.map_singleton, h.cells _ _ hv, hv]
    · rw [if_neg hd, Post.ofDeliver_other (by rw [hdeliver]; exact Ne.symm hd), List.map_nil]
  · obtain ⟨hnot, hcalls⟩ := step_frame hs ha
    rw [hcalls, State.seenBy, hnot]
    refine hseen.trans ?_
    cases a with
    | assign t v =>
      simp only [step] at hs
      split at hs
      · obtain rfl := Option.some.inj hs
        have hmem : ∀ c ∈ Post.ofDeliver d s.post.calls, c ∈ s.post.pushed :=
          fun c hc => h.logged.args c (List.mem_of_mem_filter hc)
        exact (h.referents_assign t v hmem).symm
      · cases hs
    | goOn =>
      obtain ⟨a, _, hgo⟩ := Option.bind_eq_some_iff.mp hs
      cases goOn_went hgo <;> rfl
    | pop =>
      obtain ⟨r, _, rfl⟩ := Option.map_eq_some_iff.mp hs
      rfl
    | invoke => exact absurd rfl ha

/-- What holds along every run. -/
theorem runs_inv {p : Tid} {d : Nat} {subs : List Nat} {value : T} {s : State Tid T}
    {ok : State Tid T → Act Tid T → Prop} {as : List (Act Tid T)} (hd : subs.count d = 1)
    (h : Runs (step p subs) ok (initial Tid value) as s) : Inv p d s :=
  h.invariant (Inv p d) (fun _ _ _ hi _ hs => step_inv hd hi hs) (initial_inv p d value)

/-- In a timely run the observer sees the assigned values. -/
theorem seen_of_timely {p : Tid} {d : Nat} {subs : List Nat} {value : T} {s : State Tid T}
    {as : List (Act Tid T)} (hd : subs.count d = 1)
    (h : Runs (step p subs) (Timely d) (initial Tid value) as s) : Seen s d := by
  have hseen : s.seenBy d = s.referents (Post.ofDeliver d s.post.calls) := by
    induction h with
    | nil => rfl
    | snoc hrun ht hs ih => exact step_seen (runs_inv hd hrun) ht hs ih
  have hinv := runs_inv hd h
  have hcalls := (hinv.logged.in_order d).map fun c => s.params[c.args]?
  rw [Seen, hseen, ← hinv.order]
  exact hcalls.trans (List.prefix_append _ _)

/-- A notification that comes too late shows the observer nothing. -/
theorem timely_of_seen {p : Tid} {d : Nat} {subs : List Nat} {value : T} {s : State Tid T}
    {as : List (Act Tid T)} (hd : subs.count d = 1)
    (h : Runs (step p subs) anyAction (initial Tid value) as s) (hnone : none ∉ s.seenBy d) :
    Runs (step p subs) (Timely d) (initial Tid value) as s := by
  induction h with
  | nil => exact .nil
  | @snoc as s s' a hrun _ hs ih =>
    have hinv := runs_inv hd hrun
    refine (ih fun hmem => hnone ((step_seenBy hinv hs).subset hmem)).snoc ?_ hs
    cases a with
    | invoke =>
      obtain ⟨d', c, hf, hc, _, rfl⟩ := invoke_some hinv.paired hs
      intro hf' c' hc'
      obtain rfl := Option.some.inj (hf.symm.trans hf')
      obtain rfl := Option.some.inj (hc.symm.trans hc')
      -- otherwise the function was called with nothing behind the reference
      by_contra hdead
      rw [seenBy_append, if_pos rfl] at hnone
      exact hnone (by simp [Option.not_isSome_iff_eq_none.mp hdead])
    | _ => trivial

/-- **The observer sees the assigned values exactly when its notifications are timely**: in a run
    of assignments and polls, the notifications of a `Deliver` subscribed once are called with the
    values of the changing assignments, in order, if and only if each runs before the assignment
    that caused it has returned. -/
theorem seen_iff_timely {p : Tid} {d : Nat} {subs : List Nat} {value : T} {s : State Tid T}
    {as : List (Act Tid T)} (hd : subs.count d = 1)
    (h : Runs (step p subs) anyAction (initial Tid value) as s) :
    Seen s d ↔ Runs (step p subs) (Timely d) (initial Tid value) as s := by
  refine ⟨fun hseen => timely_of_seen hd h ?_, seen_of_timely hd⟩
  intro hmem
  have hsome := hseen.subset hmem
  simp at hsome

/-- The polling thread runs as soon as the `Deliver` is queued. -/
theorem seen_prompt : ∃ s, Runs (step 0 [6, 7]) anyAction (initial Nat 3)
      ([.assign 1 5] ++ List.replicate 5 .goOn ++ [.pop, .invoke, .pop, .invoke, .goOn, .goOn]) s ∧
    Seen s 7 := by
  have htimely : Runs (step 0 [6, 7]) (Timely 7) (initial Nat 3) ([.assign 1 5] ++
      List.replicate 5 .goOn ++ [.pop, .invoke, .pop, .invoke, .goOn, .goOn]) _ :=
    runs_checked_get (by decide)
  have hrun := htimely.mono fun _ _ _ => trivial
  exact ⟨_, hrun, (seen_iff_timely (by decide) hrun).mpr htimely⟩

end RtCharger.Os.Observable
