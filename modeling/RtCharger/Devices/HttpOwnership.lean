import RtCharger.Devices.HttpThreads

namespace RtCharger.Devices

open SharedHeap StepSystem RtCharger.Kernel RtCharger.Os RtCharger.Utilities

/-!
# Who owns a flow

The owners of a flow are the thread that made it and the handler of a line, for as long as its
argument lives; nobody else ever has a reference to it.

* `SameRefs` — the steps that change no reference, `completeAll_sameRefs` among them;
* `Owned` — the counts of the heap are the references held, and every slot has its own flows;
* `Owned.drop`, `Owned.release` — who destroys the flow;
* `step_owned`, `runs_owned` — `Owned` in every run.
-/

namespace Http

variable {Tid : Type} {st st' : Threads Tid} {t : Tid} {s : Fin kSlots} {a : Nat}

/-! ### Steps that change no reference -/

/-- The references of `st'` are those of `st`, and a destructor that runs ran before. -/
structure SameRefs (st st' : Threads Tid) : Prop where
  heap : st'.heap = st.heap
  slots : st'.slots = st.slots
  held : ∀ u, (st'.pc u).held = (st.pc u).held
  destroys : ∀ u x, (st'.pc u).destroys = some x → (st.pc u).destroys = some x
  parser_held : st'.parser.held = st.parser.held
  parser_destroys : ∀ x, st'.parser.destroys = some x → st.parser.destroys = some x

theorem SameRefs.refl (st : Threads Tid) : SameRefs st st :=
  ⟨rfl, rfl, fun _ => rfl, fun _ _ h => h, rfl, fun _ h => h⟩

theorem SameRefs.trans {st'' : Threads Tid} (h : SameRefs st st') (h' : SameRefs st' st'') :
    SameRefs st st'' where
  heap := h'.heap.trans h.heap
  slots := h'.slots.trans h.slots
  held u := (h'.held u).trans (h.held u)
  destroys u x hx := h.destroys u x (h'.destroys u x hx)
  parser_held := h'.parser_held.trans h.parser_held
  parser_destroys x hx := h.parser_destroys x (h'.parser_destroys x hx)

/-- Issuing a command. -/
theorem record_sameRefs (st : Threads Tid) (thread : Option Tid) (a : Nat) (cmd : AtCommand)
    (result : RtErr) : SameRefs st (st.record thread a cmd result) :=
  ⟨rfl, rfl, fun _ => rfl, fun _ _ h => h, rfl, fun _ h => h⟩

/-- Waiting, and getting a response. -/
theorem event_sameRefs (st : Threads Tid) (event : EventSet Tid) (completed : List Nat) :
    SameRefs st { st with event := event, completed := completed } :=
  ⟨rfl, rfl, fun _ => rfl, fun _ _ h => h, rfl, fun _ h => h⟩

/-- Going on of the parser with no reference. -/
theorem parser_sameRefs {p : ParserPc} (hheld : p.held = st.parser.held)
    (hdestroys : p.destroys = none) : SameRefs st { st with parser := p } :=
  ⟨rfl, rfl, fun _ => rfl, fun _ _ h => h, hheld, fun x hx => by rw [hdestroys] at hx; cases hx⟩

section Goto

variable [DecidableEq Tid]

@[simp] theorem goto_pc_self (st : Threads Tid) (t : Tid) (p : Pc) : (st.goto t p).pc t = p :=
  Function.update_self ..

theorem goto_pc_of_ne {u : Tid} (hne : u ≠ t) (st : Threads Tid) (p : Pc) :
    (st.goto t p).pc u = st.pc u := Function.update_of_ne hne ..

/-- What only one thread can be is still so after a thread has gone on to where it may be it. -/
theorem unique_goto {P : Pc → Prop} (h : ∀ u v, P (st.pc u) → P (st.pc v) → u = v) {p : Pc}
    (hp : ∀ u, P p → P (st.pc u) → u = t) {u v : Tid} (hu : P ((st.goto t p).pc u))
    (hv : P ((st.goto t p).pc v)) : u = v := by
  by_cases hut : u = t
  · by_cases hvt : v = t
    · rw [hut, hvt]
    · rw [hut, goto_pc_self] at hu
      rw [goto_pc_of_ne hvt] at hv
      exact hut.trans (hp v hu hv).symm
  · rw [goto_pc_of_ne hut] at hu
    by_cases hvt : v = t
    · rw [hvt, goto_pc_self] at hv
      exact (hp u hv hu).trans hvt.symm
    · rw [goto_pc_of_ne hvt] at hv
      exact h u v hu hv

/-- A thread goes on with the reference it has, or with none. -/
theorem goto_sameRefs {p : Pc} (hheld : p.held = (st.pc t).held)
    (hdestroys : ∀ x, p.destroys = some x → (st.pc t).destroys = some x) :
    SameRefs st (st.goto t p) where
  heap := rfl
  slots := rfl
  held u := by
    by_cases hu : u = t
    · rw [hu, goto_pc_self, hheld]
    · rw [goto_pc_of_ne hu]
  destroys u x hx := by
    by_cases hu : u = t
    · rw [hu, goto_pc_self] at hx
      rw [hu]
      exact hdestroys x hx
    · rwa [goto_pc_of_ne hu] at hx
  parser_held := rfl
  parser_destroys _ hx := hx

/-- The same when a thread with a reference goes on to another place with it. -/
theorem stage_sameRefs {stage stage' : Stage} (hpc : st.pc t = .holding stage s a) :
    SameRefs st (st.goto t (.holding stage' s a)) :=
  goto_sameRefs (by rw [hpc]; rfl) fun _ hx => nomatch hx

theorem complete_sameRefs (st : Threads Tid) (t : Tid) : SameRefs st (st.complete t) := by
  unfold Threads.complete
  split
  · rename_i s a hpc
    have h : SameRefs st (st.goto t (.holding .leaving s a)) := stage_sameRefs hpc
    exact ⟨h.heap, h.slots, h.held, h.destroys, h.parser_held, h.parser_destroys⟩
  · exact .refl st

theorem completeAll_sameRefs (st : Threads Tid) (ws : List (Waiter Tid)) :
    SameRefs st (st.completeAll ws) := by
  induction ws generalizing st with
  | nil => exact .refl st
  | cons w ws ih => exact (complete_sameRefs st w.thread).trans (ih _)

/-- Getting a response changes nothing else. -/
theorem complete_frame (st : Threads Tid) (t : Tid) :
    (st.complete t).event = st.event ∧ (st.complete t).parser = st.parser ∧
      (st.complete t).issued = st.issued ∧ (st.complete t).finals = st.finals := by
  unfold Threads.complete
  split
  · exact ⟨rfl, rfl, rfl, rfl⟩
  · exact ⟨rfl, rfl, rfl, rfl⟩

theorem completeAll_frame (st : Threads Tid) (ws : List (Waiter Tid)) :
    (st.completeAll ws).event = st.event ∧ (st.completeAll ws).parser = st.parser ∧
      (st.completeAll ws).issued = st.issued ∧ (st.completeAll ws).finals = st.finals := by
  induction ws generalizing st with
  | nil => exact ⟨rfl, rfl, rfl, rfl⟩
  | cons w ws ih =>
    obtain ⟨he, hp, hi, hf⟩ := ih (st.complete w.thread)
    obtain ⟨he', hp', hi', hf'⟩ := complete_frame st w.thread
    exact ⟨he.trans he', hp.trans hp', hi.trans hi', hf.trans hf'⟩

end Goto

/-! ### Owners -/

/-- Some thread has a reference to the flow. -/
def Threads.HeldByThread (st : Threads Tid) (a : Nat) : Prop :=
  ∃ t s, (st.pc t).held = some (s, a)

/-- The argument of the handler refers to the flow. -/
def Threads.HeldByParser (st : Threads Tid) (a : Nat) : Prop := ∃ s, st.parser.held = some (s, a)

open Classical in
/-- The number of references to a flow. -/
noncomputable def Threads.refs (st : Threads Tid) (a : Nat) : Nat :=
  (if st.HeldByThread a then 1 else 0) + (if st.HeldByParser a then 1 else 0)

/-- Every flow has one reference from its thread and one from the handler, if they hold it; it
    belongs to the slot that they found it in. -/
structure Owned (st : Threads Tid) : Prop where
  counted : ∃ owners, st.heap.Counted owners ∧ ∀ a, owners.count a = st.refs a
  unique : ∀ t u s s' a, (st.pc t).held = some (s, a) → (st.pc u).held = some (s', a) → t = u
  slot : ∀ t s a flow, (st.pc t).held = some (s, a) → st.heap.get a = some flow → flow.slot = s
  parser_slot : ∀ s a flow, st.parser.held = some (s, a) → st.heap.get a = some flow →
    flow.slot = s
  weak_slot : ∀ s a flow, st.slots s = some a → st.heap.get a = some flow → flow.slot = s
  weak_lt : ∀ s a, st.slots s = some a → a < st.heap.next
  dead : ∀ t s a, (st.pc t).destroys = some (s, a) → st.heap.get a = none ∧ a < st.heap.next
  parser_dead : ∀ s a, st.parser.destroys = some (s, a) →
    st.heap.get a = none ∧ a < st.heap.next

theorem initial_owned (Tid : Type) : Owned (Threads.initial Tid) where
  counted := by
    refine ⟨[], counted_empty, fun a => ?_⟩
    have hthread : ¬(Threads.initial Tid).HeldByThread a := by
      rintro ⟨t, s, h⟩
      cases h
    have hparser : ¬(Threads.initial Tid).HeldByParser a := by
      rintro ⟨s, h⟩
      cases h
    rw [Threads.refs, if_neg hthread, if_neg hparser, List.count_nil]
  unique _ _ _ _ _ h _ := nomatch h
  slot _ _ _ _ h _ := nomatch h
  parser_slot _ _ _ h _ := nomatch h
  weak_slot _ _ _ h _ := nomatch h
  weak_lt _ _ h := nomatch h
  dead _ _ _ h := nomatch h
  parser_dead _ _ h := nomatch h

/-- A flow lives as long as a thread or the handler has a reference to it. -/
theorem Owned.alive_iff (h : Owned st) (a : Nat) :
    (st.heap.get a).isSome = true ↔ st.HeldByThread a ∨ st.HeldByParser a := by
  obtain ⟨owners, hcounted, hcount⟩ := h.counted
  rw [hcounted.alive_iff a, ← List.count_pos_iff, hcount a, Threads.refs]
  by_cases hthread : st.HeldByThread a
  · rw [if_pos hthread]
    exact ⟨fun _ => Or.inl hthread, fun _ => by omega⟩
  · rw [if_neg hthread]
    by_cases hparser : st.HeldByParser a
    · rw [if_pos hparser]
      exact ⟨fun _ => Or.inr hparser, fun _ => by omega⟩
    · rw [if_neg hparser]
      exact ⟨fun hpos => absurd hpos (by omega), fun hor => absurd hor (by simp [hthread, hparser])⟩

/-- What somebody has a reference to is there. -/
theorem Owned.exists_get (h : Owned st) (hheld : st.HeldByThread a ∨ st.HeldByParser a) :
    ∃ flow, st.heap.get a = some flow :=
  Option.isSome_iff_exists.mp ((h.alive_iff a).mpr hheld)

/-- What somebody has a reference to was made. -/
theorem Owned.lt_next (h : Owned st) (hheld : st.HeldByThread a ∨ st.HeldByParser a) :
    a < st.heap.next := by
  obtain ⟨owners, hcounted, _⟩ := h.counted
  exact hcounted.lt_next ((hcounted.alive_iff a).mp ((h.alive_iff a).mpr hheld))

/-- Nobody has a reference to the flow that is made next. -/
theorem Owned.next_unheld (h : Owned st) :
    ¬st.HeldByThread st.heap.next ∧ ¬st.HeldByParser st.heap.next := by
  obtain ⟨owners, hcounted, _⟩ := h.counted
  rw [← not_or, ← h.alive_iff, hcounted.alive_iff]
  exact hcounted.next_not_mem

/-- Only the counts of references matter for them. -/
theorem refs_congr {b : Nat} (hthread : st'.HeldByThread b ↔ st.HeldByThread b)
    (hparser : st'.HeldByParser b ↔ st.HeldByParser b) : st'.refs b = st.refs b := by
  classical
  simp only [Threads.refs, hthread, hparser]

theorem SameRefs.refs (h : SameRefs st st') (b : Nat) : st'.refs b = st.refs b := by
  apply refs_congr
  · simp only [Threads.HeldByThread, h.held]
  · simp only [Threads.HeldByParser, h.parser_held]

/-- The steps that change no reference. -/
theorem Owned.sameRefs (h : Owned st) (hsame : SameRefs st st') : Owned st' where
  counted := by
    obtain ⟨owners, hcounted, hcount⟩ := h.counted
    refine ⟨owners, ?_, fun b => (hcount b).trans (hsame.refs b).symm⟩
    rw [hsame.heap]
    exact hcounted
  unique t u s s' b ht hu := by
    rw [hsame.held] at ht hu
    exact h.unique t u s s' b ht hu
  slot t s b flow ht hget := by
    rw [hsame.held] at ht
    rw [hsame.heap] at hget
    exact h.slot t s b flow ht hget
  parser_slot s b flow hp hget := by
    rw [hsame.parser_held] at hp
    rw [hsame.heap] at hget
    exact h.parser_slot s b flow hp hget
  weak_slot s b flow hs hget := by
    rw [hsame.slots] at hs
    rw [hsame.heap] at hget
    exact h.weak_slot s b flow hs hget
  weak_lt s b hs := by
    rw [hsame.slots] at hs
    rw [hsame.heap]
    exact h.weak_lt s b hs
  dead t s b hd := by
    rw [hsame.heap]
    exact h.dead t s b (hsame.destroys t _ hd)
  parser_dead s b hd := by
    rw [hsame.heap]
    exact h.parser_dead s b (hsame.parser_destroys _ hd)

/-! ### Steps of the threads -/

/-- A thread that holds nothing is not missed. -/
theorem heldByThread_other {b : Nat} (ht : (st.pc t).held = none) :
    (∃ u s, u ≠ t ∧ (st.pc u).held = some (s, b)) ↔ st.HeldByThread b := by
  constructor
  · rintro ⟨u, s, _, hu⟩
    exact ⟨u, s, hu⟩
  · rintro ⟨u, s, hu⟩
    refine ⟨u, s, ?_, hu⟩
    rintro rfl
    rw [ht] at hu
    cases hu

/-- The constructor of a flow fails, and nothing is left of it. -/
theorem Owned.unmake (h : Owned st) (flow : Flow) :
    Owned { st with heap := (st.heap.make flow).release st.heap.next } := by
  -- at its address nothing lived before, and nothing lives after
  have hget : ∀ b, ((st.heap.make flow).release st.heap.next).get b = st.heap.get b := by
    intro b
    obtain ⟨owners, hcounted, _⟩ := h.counted
    by_cases hb : b = st.heap.next
    · subst hb
      have hnone : st.heap.get st.heap.next = none := by
        rw [Heap.get, hcounted.fresh _ (Nat.le_refl _)]
        rfl
      have hrelease := (hcounted.make flow).get_release List.mem_cons_self st.heap.next
      rw [List.erase_cons_head, if_neg hcounted.next_not_mem] at hrelease
      exact hrelease.trans hnone.symm
    · exact (get_release_of_ne _ hb).trans (get_make_of_ne _ _ hb)
  refine ⟨?_, h.unique, ?_, ?_, ?_, ?_, ?_, ?_⟩
  · obtain ⟨owners, hcounted, hcount⟩ := h.counted
    refine ⟨owners, ?_, hcount⟩
    have hrelease := (hcounted.make flow).release (List.mem_cons_self ..)
    rwa [List.erase_cons_head] at hrelease
  · intro u s' b flow' hu hb
    exact h.slot u s' b flow' hu ((hget b).symm.trans hb)
  · intro s' b flow' hp hb
    exact h.parser_slot s' b flow' hp ((hget b).symm.trans hb)
  · intro s' b flow' hs hb
    exact h.weak_slot s' b flow' hs ((hget b).symm.trans hb)
  · intro s' b hs
    exact Nat.lt_succ_of_lt (h.weak_lt s' b hs)
  · intro u s' b hu
    obtain ⟨hdead, hlt⟩ := h.dead u s' b hu
    exact ⟨(hget b).trans hdead, Nat.lt_succ_of_lt hlt⟩
  · intro s' b hp
    obtain ⟨hdead, hlt⟩ := h.parser_dead s' b hp
    exact ⟨(hget b).trans hdead, Nat.lt_succ_of_lt hlt⟩

section Threads

variable [DecidableEq Tid]

/-- Who holds a flow after a thread has gone on. -/
theorem heldByThread_goto {p : Pc} {b : Nat} : (st.goto t p).HeldByThread b ↔
    (∃ s, p.held = some (s, b)) ∨ ∃ u s, u ≠ t ∧ (st.pc u).held = some (s, b) := by
  constructor
  · rintro ⟨u, s, hu⟩
    by_cases hut : u = t
    · rw [hut, goto_pc_self] at hu
      exact Or.inl ⟨s, hu⟩
    · rw [goto_pc_of_ne hut] at hu
      exact Or.inr ⟨u, s, hut, hu⟩
  · rintro (⟨s, hp⟩ | ⟨u, s, hut, hu⟩)
    · exact ⟨t, s, by rw [goto_pc_self, hp]⟩
    · exact ⟨u, s, by rw [goto_pc_of_ne hut, hu]⟩

/-- A flow that is made has one reference, and the others keep theirs. -/
theorem Owned.counted_make (h : Owned st) (hpc : st.pc t = .picked s) (flow : Flow) :
    ∃ owners, (st.heap.make flow).Counted owners ∧ ∀ b, owners.count b
      = ({ st with heap := st.heap.make flow }.goto t (.holding .created s st.heap.next)).refs b := by
  obtain ⟨hthread, hparser⟩ := h.next_unheld
  have hheld : (st.pc t).held = none := by rw [hpc]; rfl
  obtain ⟨owners, hcounted, hcount⟩ := h.counted
  refine ⟨st.heap.next :: owners, hcounted.make flow, fun b => ?_⟩
  by_cases hb : b = st.heap.next
  · subst hb
    have hzero : owners.count st.heap.next = 0 :=
      List.count_eq_zero.mpr hcounted.next_not_mem
    have hsame : ({ st with heap := st.heap.make flow }.goto t
        (.holding .created s st.heap.next)).HeldByParser st.heap.next ↔
        st.HeldByParser st.heap.next := Iff.rfl
    rw [List.count_cons_self, hzero, Threads.refs,
      if_pos (heldByThread_goto.mpr (Or.inl ⟨s, rfl⟩)), if_neg (fun hp => hparser (hsame.mp hp))]
  · rw [List.count_cons_of_ne (Ne.symm hb), hcount b]
    refine (refs_congr ?_ ?_).symm
    · rw [heldByThread_goto]
      refine (or_iff_right ?_).trans (heldByThread_other hheld)
      rintro ⟨s', hs'⟩
      cases hs'
      exact hb rfl
    · exact Iff.rfl

/-- A flow is made. -/
theorem Owned.make (h : Owned st) (hpc : st.pc t = .picked s) {flow : Flow}
    (hslot : flow.slot = s) :
    Owned ({ st with heap := st.heap.make flow }.goto t (.holding .created s st.heap.next)) := by
  obtain ⟨hthread, hparser⟩ := h.next_unheld
  have hother : ∀ {u s' b}, (st.pc u).held = some (s', b) → b ≠ st.heap.next := by
    rintro u s' b hu rfl
    exact hthread ⟨u, s', hu⟩
  refine ⟨h.counted_make hpc flow, ?_, ?_, ?_, ?_, ?_, ?_, ?_⟩
  · intro u v s₁ s₂ b hu hv
    refine unique_goto (P := fun q => ∃ s', q.held = some (s', b)) ?_ ?_ ⟨s₁, hu⟩ ⟨s₂, hv⟩
    · rintro u v ⟨s₁, hu⟩ ⟨s₂, hv⟩
      exact h.unique u v s₁ s₂ b hu hv
    · rintro u ⟨s₁, hs₁⟩ ⟨s₂, hu⟩
      cases hs₁
      exact absurd rfl (hother hu)
  · intro u s' b flow' hu hget
    by_cases hut : u = t
    · rw [hut, goto_pc_self] at hu
      cases hu
      have hself : (st.heap.make flow).get st.heap.next = some flow := get_make_self ..
      obtain rfl := Option.some.inj (hself.symm.trans hget)
      exact hslot
    · rw [goto_pc_of_ne hut] at hu
      have hold : st.heap.get b = some flow' := (get_make_of_ne _ _ (hother hu)).symm.trans hget
      exact h.slot u s' b flow' hu hold
  · intro s' b flow' hp hget
    have hne : b ≠ st.heap.next := by
      rintro rfl
      exact hparser ⟨s', hp⟩
    exact h.parser_slot s' b flow' hp ((get_make_of_ne _ _ hne).symm.trans hget)
  · intro s' b flow' hs hget
    -- what a slot refers to was made before, so that it is not the new flow
    have hlt := h.weak_lt s' b hs
    exact h.weak_slot s' b flow' hs ((get_make_of_ne _ _ (Nat.ne_of_lt hlt)).symm.trans hget)
  · intro s' b hs
    exact Nat.lt_succ_of_lt (h.weak_lt s' b hs)
  · intro u s' b hu
    by_cases hut : u = t
    · rw [hut, goto_pc_self] at hu
      cases hu
    · rw [goto_pc_of_ne hut] at hu
      obtain ⟨hdead, hlt⟩ := h.dead u s' b hu
      exact ⟨(get_make_of_ne _ _ (Nat.ne_of_lt hlt)).trans hdead, Nat.lt_succ_of_lt hlt⟩
  · intro s' b hp
    obtain ⟨hdead, hlt⟩ := h.parser_dead s' b hp
    exact ⟨(get_make_of_ne _ _ (Nat.ne_of_lt hlt)).trans hdead, Nat.lt_succ_of_lt hlt⟩

omit [DecidableEq Tid] in
/-- What a slot refers to after one was stored. -/
theorem stored_cases {slots : Fin kSlots → Option Nat} {s' : Fin kSlots} {b : Nat}
    (h : Function.update slots s (some a) s' = some b) : (s' = s ∧ a = b) ∨ slots s' = some b := by
  by_cases hs : s' = s
  · rw [hs, Function.update_self] at h
    exact Or.inl ⟨hs, Option.some.inj h⟩
  · rw [Function.update_of_ne hs] at h
    exact Or.inr h

/-- A flow is stored in its slot. -/
theorem Owned.store (h : Owned st) (hpc : st.pc t = .holding .created s a) :
    Owned ({ st with slots := Function.update st.slots s (some a) }.goto t
      (.holding .stored s a)) := by
  have hheld : (st.pc t).held = some (s, a) := by rw [hpc]; rfl
  have hstored : Owned { st with slots := Function.update st.slots s (some a) } := by
    refine ⟨h.counted, h.unique, h.slot, h.parser_slot, ?_, ?_, h.dead, h.parser_dead⟩
    · intro s' b flow hs hget
      rcases stored_cases hs with ⟨rfl, rfl⟩ | hs
      · exact h.slot t s' a flow hheld hget
      · exact h.weak_slot s' b flow hs hget
    · intro s' b hs
      rcases stored_cases hs with ⟨rfl, rfl⟩ | hs
      · exact h.lt_next (Or.inl ⟨t, s', hheld⟩)
      · exact h.weak_lt s' b hs
  have hcreated : ({ st with slots := Function.update st.slots s (some a) } : Threads Tid).pc t
      = .holding .created s a := hpc
  exact hstored.sameRefs (stage_sameRefs hcreated)

/-- A flow whose thread drops its reference has one reference less. -/
theorem Owned.counted_drop (h : Owned st) (hheld : (st.pc t).held = some (s, a)) {p : Pc}
    (hp : p.held = none) : ∃ owners, (st.heap.release a).Counted owners ∧
      ∀ b, owners.count b = ({ st with heap := st.heap.release a }.goto t p).refs b := by
  obtain ⟨owners, hcounted, hcount⟩ := h.counted
  have hmem : a ∈ owners :=
    (hcounted.alive_iff a).mp ((h.alive_iff a).mpr (Or.inl ⟨t, s, hheld⟩))
  have hnone : ∀ {b}, ¬∃ s', p.held = some (s', b) := by
    rintro b ⟨s', hs'⟩
    rw [hp] at hs'
    cases hs'
  refine ⟨owners.erase a, hcounted.release hmem, fun b => ?_⟩
  by_cases hb : b = a
  · subst hb
    have hgone : ¬({ st with heap := st.heap.release b }.goto t p).HeldByThread b := by
      rw [heldByThread_goto]
      rintro (hs' | ⟨u, s', hut, hu⟩)
      · exact hnone hs'
      · exact hut (h.unique u t s' s b hu hheld)
    have hsame : ({ st with heap := st.heap.release b }.goto t p).HeldByParser b
        ↔ st.HeldByParser b := Iff.rfl
    rw [List.count_erase_self, hcount b, Threads.refs, Threads.refs, if_neg hgone,
      if_pos ⟨t, s, hheld⟩, Nat.zero_add]
    by_cases hpar : st.HeldByParser b
    · rw [if_pos hpar, if_pos (hsame.mpr hpar)]
    · rw [if_neg hpar, if_neg (fun h => hpar (hsame.mp h))]
  · rw [List.count_erase_of_ne hb, hcount b]
    refine (refs_congr ?_ ?_).symm
    · rw [heldByThread_goto]
      refine (or_iff_right hnone).trans ?_
      constructor
      · rintro ⟨u, s', _, hu⟩
        exact ⟨u, s', hu⟩
      · rintro ⟨u, s', hu⟩
        refine ⟨u, s', ?_, hu⟩
        -- the reference of the thread itself was to another flow
        rintro rfl
        rw [hheld] at hu
        cases hu
        exact hb rfl
    · exact Iff.rfl

/-- A thread drops its reference. -/
theorem Owned.drop (h : Owned st) (hheld : (st.pc t).held = some (s, a)) {p : Pc}
    (hp : p.held = none)
    (hdead : ∀ x, p.destroys = some x → x = (s, a) ∧ (st.heap.release a).get a = none) :
    Owned ({ st with heap := st.heap.release a }.goto t p) := by
  have hlt : a < st.heap.next := h.lt_next (Or.inl ⟨t, s, hheld⟩)
  refine ⟨h.counted_drop hheld hp, ?_, ?_, ?_, ?_, ?_, ?_, ?_⟩
  · intro u v s₁ s₂ b hu hv
    refine unique_goto (P := fun q => ∃ s', q.held = some (s', b)) ?_ ?_ ⟨s₁, hu⟩ ⟨s₂, hv⟩
    · rintro u v ⟨s₁, hu⟩ ⟨s₂, hv⟩
      exact h.unique u v s₁ s₂ b hu hv
    · rintro u ⟨s₁, hs₁⟩ _
      rw [hp] at hs₁
      cases hs₁
  · intro u s' b flow hu hget
    by_cases hut : u = t
    · rw [hut, goto_pc_self, hp] at hu
      cases hu
    · rw [goto_pc_of_ne hut] at hu
      exact h.slot u s' b flow hu (get_of_get_release hget)
  · intro s' b flow hpar hget
    exact h.parser_slot s' b flow hpar (get_of_get_release hget)
  · intro s' b flow hs hget
    exact h.weak_slot s' b flow hs (get_of_get_release hget)
  · exact h.weak_lt
  · intro u s' b hu
    by_cases hut : u = t
    · rw [hut, goto_pc_self] at hu
      obtain ⟨heq, hnone⟩ := hdead _ hu
      cases heq
      exact ⟨hnone, hlt⟩
    · rw [goto_pc_of_ne hut] at hu
      obtain ⟨hnone, hb⟩ := h.dead u s' b hu
      exact ⟨get_release_eq_none hnone, hb⟩
  · intro s' b hpar
    obtain ⟨hnone, hb⟩ := h.parser_dead s' b hpar
    exact ⟨get_release_eq_none hnone, hb⟩

end Threads

/-! ### Steps of the parser -/

/-- The handler locks a flow. -/
theorem Owned.lock (h : Owned st) {flow : Flow} (hheld : st.parser.held = none)
    (hslot : st.slots s = some a) (hget : st.heap.get a = some flow) {p : ParserPc}
    (hp : p.held = some (s, a)) (hdestroys : p.destroys = none) :
    Owned { st with heap := st.heap.acquire a, parser := p } := by
  refine ⟨?_, h.unique, ?_, ?_, ?_, h.weak_lt, ?_, ?_⟩
  · obtain ⟨owners, hcounted, hcount⟩ := h.counted
    have hmem : a ∈ owners := hcounted.mem_of_get hget
    refine ⟨a :: owners, hcounted.acquire hmem, fun b => ?_⟩
    -- the handler had no reference, and the threads keep theirs
    have hfree : ¬st.HeldByParser b := by
      rintro ⟨s', hs'⟩
      rw [hheld] at hs'
      cases hs'
    have hthread : ∀ {st' : Threads Tid}, st' = { st with heap := st.heap.acquire a, parser := p } →
        (st'.HeldByThread b ↔ st.HeldByThread b) := by
      rintro st' rfl
      exact Iff.rfl
    have hparser : ({ st with heap := st.heap.acquire a, parser := p } : Threads Tid).HeldByParser b
        ↔ b = a := by
      constructor
      · rintro ⟨s', hs'⟩
        rw [hp] at hs'
        cases hs'
        rfl
      · rintro rfl
        exact ⟨s, hp⟩
    classical
    rw [Threads.refs]
    simp only [hthread rfl, hparser]
    by_cases hb : b = a
    · subst hb
      rw [List.count_cons_self, hcount b, Threads.refs, if_neg hfree, if_pos rfl]
    · rw [List.count_cons_of_ne (Ne.symm hb), hcount b, Threads.refs, if_neg hfree, if_neg hb]
  · intro u s' b flow' hu hb
    exact h.slot u s' b flow' hu ((get_acquire ..).symm.trans hb)
  · intro s' b flow' hpar hb
    rw [hp] at hpar
    cases hpar
    exact h.weak_slot s a flow' hslot ((get_acquire ..).symm.trans hb)
  · intro s' b flow' hs hb
    exact h.weak_slot s' b flow' hs ((get_acquire ..).symm.trans hb)
  · intro u s' b hu
    obtain ⟨hnone, hlt⟩ := h.dead u s' b hu
    exact ⟨(get_acquire ..).trans hnone, hlt⟩
  · intro s' b hpar
    rw [hdestroys] at hpar
    cases hpar

/-- The callback writes the flow. -/
theorem Owned.write (h : Owned st) {f : Flow → Flow} (hf : ∀ flow, (f flow).slot = flow.slot) :
    Owned { st with heap := st.heap.modify a f } := by
  have hback : ∀ {b flow}, (st.heap.modify a f).get b = some flow →
      ∃ old, st.heap.get b = some old ∧ flow.slot = old.slot := by
    intro b flow hb
    by_cases hba : b = a
    · subst hba
      rw [get_modify_self] at hb
      obtain ⟨old, hold, rfl⟩ := Option.map_eq_some_iff.mp hb
      exact ⟨old, hold, hf old⟩
    · rw [get_modify_of_ne _ _ hba] at hb
      exact ⟨flow, hb, rfl⟩
  refine ⟨?_, h.unique, ?_, ?_, ?_, h.weak_lt, ?_, ?_⟩
  · obtain ⟨owners, hcounted, hcount⟩ := h.counted
    exact ⟨owners, hcounted.modify a f, hcount⟩
  · intro u s' b flow hu hb
    obtain ⟨old, hold, hslot⟩ := hback hb
    exact hslot.trans (h.slot u s' b old hu hold)
  · intro s' b flow hp hb
    obtain ⟨old, hold, hslot⟩ := hback hb
    exact hslot.trans (h.parser_slot s' b old hp hold)
  · intro s' b flow hs hb
    obtain ⟨old, hold, hslot⟩ := hback hb
    exact hslot.trans (h.weak_slot s' b old hs hold)
  · intro u s' b hu
    exact ⟨get_modify_eq_none (h.dead u s' b hu).1, (h.dead u s' b hu).2⟩
  · intro s' b hp
    exact ⟨get_modify_eq_none (h.parser_dead s' b hp).1, (h.parser_dead s' b hp).2⟩

/-- The argument of the handler is dropped. -/
theorem Owned.release (h : Owned st) (hheld : st.parser.held = some (s, a)) {p : ParserPc}
    (hp : p.held = none)
    (hdead : ∀ x, p.destroys = some x → x = (s, a) ∧ (st.heap.release a).get a = none) :
    Owned { st with heap := st.heap.release a, parser := p } := by
  obtain ⟨owners, hcounted, hcount⟩ := h.counted
  have hmem : a ∈ owners := (hcounted.alive_iff a).mp ((h.alive_iff a).mpr (Or.inr ⟨s, hheld⟩))
  refine ⟨⟨owners.erase a, hcounted.release hmem, fun b => ?_⟩, h.unique, ?_, ?_, ?_, h.weak_lt,
    ?_, ?_⟩
  · have hgone : ¬({ st with heap := st.heap.release a, parser := p } : Threads Tid).HeldByParser b := by
      rintro ⟨s', hs'⟩
      rw [hp] at hs'
      cases hs'
    have hthread : ({ st with heap := st.heap.release a, parser := p } : Threads Tid).HeldByThread b
        ↔ st.HeldByThread b := Iff.rfl
    have hparser : st.HeldByParser b ↔ b = a := by
      constructor
      · rintro ⟨s', hs'⟩
        rw [hheld] at hs'
        cases hs'
        rfl
      · rintro rfl
        exact ⟨s, hheld⟩
    classical
    rw [Threads.refs, if_neg hgone]
    simp only [hthread]
    have hcountb := hcount b
    rw [Threads.refs] at hcountb
    simp only [hparser] at hcountb
    by_cases hb : b = a
    · subst hb
      rw [if_pos rfl] at hcountb
      rw [List.count_erase_self, hcountb, Nat.add_sub_cancel, Nat.add_zero]
    · rw [if_neg hb] at hcountb
      rw [List.count_erase_of_ne hb, hcountb]
  · intro u s' b flow hu hb
    exact h.slot u s' b flow hu (get_of_get_release hb)
  · intro s' b flow hpar _
    rw [hp] at hpar
    cases hpar
  · intro s' b flow hs hb
    exact h.weak_slot s' b flow hs (get_of_get_release hb)
  · intro u s' b hu
    exact ⟨get_release_eq_none (h.dead u s' b hu).1, (h.dead u s' b hu).2⟩
  · intro s' b hpar
    obtain ⟨heq, hnone⟩ := hdead _ hpar
    cases heq
    exact ⟨hnone, hcounted.lt_next hmem⟩

/-! ### Every run -/

section Runs

variable [DecidableEq Tid] {action : Action Tid}

omit [DecidableEq Tid] in
/-- A parser that has given back its flow holds none when it is idle. -/
theorem idle_sameRefs {s : Fin kSlots} {final : Bool} (hparser : st.parser = .returned s final) :
    SameRefs st { st with parser := .idle } := by
  have hheld : ParserPc.idle.held = st.parser.held := by
    rw [hparser]
    rfl
  exact parser_sameRefs hheld rfl

/-- A step keeps the ownership. -/
theorem step_owned (h : Owned st) (hstep : step st action = some st') : Owned st' := by
  cases step_did hstep with
  | pick hpc _ => exact h.sameRefs (goto_sameRefs (by rw [hpc]; rfl) fun _ hx => nomatch hx)
  | exhausted _ _ => exact h
  | refuse hpc => exact h.sameRefs (goto_sameRefs (by rw [hpc]; rfl) fun _ hx => nomatch hx)
  | @create t s url hpc =>
    have hrecorded := h.sameRefs (record_sameRefs st (some t) st.heap.next (.httpCreate s url.host) .ok)
    exact hrecorded.make (t := t) hpc rfl
  | @uncreated t s url result hpc _ =>
    have hrecorded :=
      h.sameRefs (record_sameRefs st (some t) st.heap.next (.httpCreate s url.host) result)
    refine (hrecorded.unmake ⟨s, url.host, url.path, []⟩).sameRefs
      (goto_sameRefs ?_ fun _ hx => nomatch hx)
    show none = (st.pc t).held
    rw [hpc]
    rfl
  | store hpc => exact h.store hpc
  | @command _ t _ _ s a cmd result _ hpc _ _ _ =>
    exact h.sameRefs ((record_sameRefs st (some t) a cmd result).trans (stage_sameRefs hpc))
  | fail hpc _ => exact h.sameRefs (stage_sameRefs hpc)
  | received hpc _ => exact h.sameRefs ((event_sameRefs st _ _).trans (stage_sameRefs hpc))
  | suspended hpc _ =>
    exact h.sameRefs ((event_sameRefs st _ st.completed).trans (stage_sameRefs hpc))
  | timeout hpc _ =>
    exact h.sameRefs ((event_sameRefs st _ st.completed).trans (stage_sameRefs hpc))
  | @drop t s a hpc hlast =>
    exact h.drop (s := s) (by rw [hpc]; rfl) rfl fun _ hx => nomatch hx
  | @dropLast t s a hpc hlast =>
    -- the thread goes on to destroy what nobody refers to any more
    refine h.drop (s := s) (by rw [hpc]; rfl) rfl fun x hx => ?_
    cases hx
    exact ⟨rfl, hlast⟩
  | @destroy t s a result hpc =>
    have hrecorded := record_sameRefs st (some t) a (.httpDestroy s) result
    have hdestroyed : SameRefs st (st.destroySession (some t) s a result) :=
      ⟨hrecorded.heap, hrecorded.slots, hrecorded.held, hrecorded.destroys,
        hrecorded.parser_held, hrecorded.parser_destroys⟩
    refine h.sameRefs (hdestroyed.trans (goto_sameRefs ?_ fun _ hx => nomatch hx))
    show none = (st.pc t).held
    rw [hpc]
    rfl
  | lock hparser hslot hget => exact h.lock (by rw [hparser]; rfl) hslot hget rfl rfl
  | unmatched _ _ => exact h
  | @call s a chunk final hparser =>
    -- the flow changes, the references do not
    have hwritten := h.write (a := a) (f := fun flow => { flow with
      response := flow.response ++ chunk }) fun _ => rfl
    refine hwritten.sameRefs ⟨rfl, rfl, fun _ => rfl, fun _ _ hx => hx, ?_, fun _ hx => nomatch hx⟩
    show some (s, a) = st.parser.held
    rw [hparser]
    rfl
  | @release s a final hparser hlast =>
    exact h.release (s := s) (by rw [hparser]; rfl) rfl fun _ hx => nomatch hx
  | @releaseLast s a final hparser hlast =>
    refine h.release (s := s) (by rw [hparser]; rfl) rfl fun x hx => ?_
    cases hx
    exact ⟨rfl, hlast⟩
  | @destroyOnParser s a final result hparser =>
    have hrecorded := record_sameRefs st none a (.httpDestroy s) result
    refine h.sameRefs ⟨hrecorded.heap, hrecorded.slots, hrecorded.held, hrecorded.destroys, ?_,
      fun _ hx => nomatch hx⟩
    show none = st.parser.held
    rw [hparser]
    rfl
  | raise hparser =>
    exact h.sameRefs ((idle_sameRefs hparser).trans ((event_sameRefs _ _ st.completed).trans
      (completeAll_sameRefs _ _)))
  | lower hparser => exact h.sameRefs (idle_sameRefs hparser)

/-- **Ownership.**  In every run the references counted are those that are held. -/
theorem runs_owned {ok : Threads Tid → Action Tid → Prop} {as : List (Action Tid)}
    (h : Runs step ok (Threads.initial Tid) as st) : Owned st :=
  h.invariant Owned (fun _ _ _ hi _ hs => step_owned hi hs) (initial_owned Tid)

end Runs

end Http

end RtCharger.Devices
