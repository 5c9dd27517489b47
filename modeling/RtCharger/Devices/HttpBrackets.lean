import RtCharger.Devices.HttpSessions

namespace RtCharger.Devices

open Effect SharedHeap StepSystem RtCharger.Kernel RtCharger.Net

/-!
# When sessions are well bracketed

* `step_sessions`, `runs_sessions` — the sessions stay bracketed while slots are picked alone;
* `runs_wellBracketed` — so in every such run they are;
* `interleaved_of_pick` — any other pick leads to a run in which they are not;
* `interleaved_sessions` — two threads that pick the slot at the same time.
-/

namespace Http

variable {Tid : Type} {st st' : Threads Tid}

section Steps

variable [DecidableEq Tid] {t : Tid}

omit [DecidableEq Tid] in
/-- A flow that lives after a reference was dropped is still referred to. -/
theorem Owned.exists_heldBy (h : Owned st') {s : Fin kSlots} {a : Nat}
    (hheap : st'.heap = st.heap.release a) (hlive : ((st.heap.release a).get a).isSome = true)
    (hslot : ∀ flow, st.heap.get a = some flow → flow.slot = s) :
    ∃ v, st'.heldBy v = some (s, a) := by
  obtain ⟨flow, hflow⟩ := Option.isSome_iff_exists.mp hlive
  obtain ⟨v, hv⟩ := h.heldBy_of_get (by rw [hheap]; exact hflow)
  rw [hslot flow (get_of_get_release hflow)] at hv
  exact ⟨v, hv⟩

/-- Of a thread that dropped its own reference, it is somebody else who refers to the flow. -/
theorem heldBy_drop_ne {s : Fin kSlots} {a : Nat} {v : Option Tid}
    (hv : ({ st with heap := st.heap.release a }.goto t .idle).heldBy v = some (s, a)) :
    v ≠ some t ∧ st.heldBy v = some (s, a) := by
  cases v with
  | none   => exact ⟨nofun, hv⟩
  | some v =>
    have hne : v ≠ t := by
      rintro rfl
      have hidle : ({ st with heap := st.heap.release a }.goto v .idle).pc v = .idle :=
        goto_pc_self ..
      have hnone : some (s, a) = (Pc.idle).held := hv.symm.trans (congrArg Pc.held hidle)
      cases hnone
    have hother : ({ st with heap := st.heap.release a }.goto t .idle).pc v = st.pc v :=
      goto_pc_of_ne hne ..
    exact ⟨fun heq => hne (Option.some.inj heq), (congrArg Pc.held hother).symm.trans hv⟩

/-- A thread sends the command that ends a session, and is through with its request. -/
theorem ends_thread {s : Fin kSlots} {a : Nat} {result : RtErr} (hpc : st.pc t = .destroying s a) :
    Ends st ((st.destroySession (some t) s a result).goto t .idle) (some t) s a := by
  have hself : ((st.destroySession (some t) s a result).goto t .idle).pc t = .idle :=
    goto_pc_self ..
  refine ⟨?_, congrArg Pc.destroys hself, ?_, ?_⟩
  · show (st.pc t).destroys = _
    rw [hpc]
    rfl
  · intro u
    refine (heldBy_goto ?_ u).trans ?_
    · show none = (st.pc t).held
      rw [hpc]
      rfl
    · cases u <;> rfl
  · intro u hu
    cases u with
    | none   => rfl
    | some u =>
      have hne : u ≠ t := fun h => hu (by rw [h])
      exact congrArg Pc.destroys (goto_pc_of_ne hne _ .idle)

omit [DecidableEq Tid] in
/-- The handler sends it. -/
theorem ends_handler {s : Fin kSlots} {a : Nat} {result : RtErr} {final : Bool}
    (hparser : st.parser = .destroying s a final) :
    Ends st { st.destroySession none s a result with parser := .returned s final } none s a := by
  refine ⟨?_, rfl, ?_, ?_⟩
  · show st.parser.destroys = _
    rw [hparser]
    rfl
  · intro u
    cases u with
    | none =>
      show none = st.parser.held
      rw [hparser]
      rfl
    | some u => rfl
  · intro u hu
    cases u with
    | none   => exact absurd rfl hu
    | some u => rfl

omit [DecidableEq Tid] in
/-- The handler that is called refers to the flow. -/
theorem heldBy_called {s : Fin kSlots} {a : Nat} {final : Bool}
    (hparser : st.parser = .called s a final) : st.heldBy none = some (s, a) := by
  show st.parser.held = _
  rw [hparser]
  rfl

/-- A step keeps the sessions bracketed. -/
theorem step_sessions {action : Action Tid} (howned : Owned st) (h : Sessions st)
    (hok : PicksAlone st action) (hstep : step st action = some st') : Sessions st' := by
  have howned' := step_owned howned hstep
  cases step_did hstep with
  | @pick t s hpc hnext => exact h.pick howned hpc hnext (hok s hnext)
  | exhausted _ _ => exact h
  | refuse hpc =>
    exact h.goto_idle (by rw [hpc]; rfl) (by rw [hpc]; rfl) rfl rfl fun _ hs => nomatch hs
  | create hpc => exact h.create hpc
  | uncreated hpc hresult => exact h.uncreated hpc hresult _
  | store hpc => exact h.store hpc
  | command _ hpc hcmd hstage hstage' =>
    refine h.command hpc hcmd ?_ ?_
    · rcases hstage with rfl | rfl <;> decide
    · rcases hstage' with rfl | rfl | rfl <;> decide
  | fail hpc hstage =>
    refine h.silent (quiet_goto .leaving hpc ?_ (by decide)) rfl
    rcases hstage with rfl | rfl | rfl <;> decide
  | received hpc _ =>
    have hquiet := quiet_goto .leaving hpc (by decide) (by decide)
    exact h.silent ⟨hquiet.pc, hquiet.slots, hquiet.held, hquiet.destroys⟩ rfl
  | suspended hpc _ =>
    have hquiet := quiet_goto .waiting hpc (by decide) (by decide)
    exact h.silent ⟨hquiet.pc, hquiet.slots, hquiet.held, hquiet.destroys⟩ rfl
  | timeout hpc _ =>
    have hquiet := quiet_goto .leaving hpc (by decide) (by decide)
    exact h.silent ⟨hquiet.pc, hquiet.slots, hquiet.held, hquiet.destroys⟩ rfl
  | @drop t s a hpc hlast =>
    -- the flow lives, so that somebody else has a reference to it
    obtain ⟨v, hv⟩ := howned'.exists_heldBy rfl hlast fun flow hflow =>
      howned.slot t s a flow (by rw [hpc]; rfl) hflow
    exact h.drop howned hpc rfl (Or.inr ⟨rfl, v, heldBy_drop_ne hv⟩) fun _ hp => nomatch hp
  | dropLast hpc _ => exact h.drop howned hpc rfl (Or.inl rfl) fun _ hp => nomatch hp
  | @destroy t s a result hpc =>
    have hself : ((st.destroySession (some t) s a result).goto t .idle).pc t = .idle :=
      goto_pc_self ..
    refine h.destroy howned (ends_thread hpc) rfl rfl ?_ ?_
    · intro u s' hu
      by_cases hut : u = t
      · rw [hut, hself] at hu
        cases hu
      · rwa [goto_pc_of_ne hut] at hu
    · intro u stage s' b hu
      by_cases hut : u = t
      · rw [hut, hself] at hu
        cases hu
      · rwa [goto_pc_of_ne hut] at hu
  | lock hparser hslot hget => exact h.lock howned hparser hslot hget rfl rfl
  | unmatched _ _ => exact h
  | @call s a chunk final hparser =>
    have hquiet : Quiet st { st with parser := .called s a final } :=
      quiet_handler (by rw [hparser]; rfl) (by rw [hparser]; rfl)
    exact h.silent ⟨hquiet.pc, hquiet.slots, hquiet.held, hquiet.destroys⟩ rfl
  | @release s a final hparser hlast =>
    have hheld := heldBy_called hparser
    obtain ⟨v, hv⟩ := howned'.exists_heldBy rfl hlast fun flow hflow =>
      howned.parser_slot s a flow hheld hflow
    have hother : ∃ t : Tid, (st.pc t).held = some (s, a) := by
      cases v with
      | none   => cases hv
      | some t => exact ⟨t, hv⟩
    exact h.pass howned (passes_handler hheld rfl (Or.inr ⟨rfl, hother⟩)) rfl rfl
      (fun _ _ hu => hu) fun _ _ _ _ hu => hu
  | @releaseLast s a final hparser hlast =>
    exact h.pass howned (passes_handler (heldBy_called hparser) rfl (Or.inl rfl)) rfl rfl
      (fun _ _ hu => hu) fun _ _ _ _ hu => hu
  | @destroyOnParser s a final result hparser =>
    exact h.destroy howned (ends_handler hparser) rfl rfl (fun _ _ hu => hu) fun _ _ _ _ hu => hu
  | @raise s hparser =>
    have hidle : Quiet st { st with parser := .idle } :=
      quiet_handler (by rw [hparser]; rfl) (by rw [hparser]; rfl)
    have hset : Quiet st
        { st with event := st.event.set (OneHot.oneHot (doneBit s)), parser := .idle } :=
      ⟨hidle.pc, hidle.slots, hidle.held, hidle.destroys⟩
    exact h.silent (hset.trans (completeAll_quiet _ _)) (completeAll_frame _ _).2.2.1
  | lower hparser =>
    exact h.silent (quiet_handler (by rw [hparser]; rfl) (by rw [hparser]; rfl)) rfl

/-- In every run in which slots are picked alone. -/
theorem runs_sessions {as : List (Action Tid)}
    (h : Runs step PicksAlone (Threads.initial Tid) as st) : Owned st ∧ Sessions st := by
  refine h.invariant (fun st => Owned st ∧ Sessions st) ?_
    ⟨initial_owned Tid, initial_sessions Tid⟩
  rintro st₁ action st₂ ⟨howned, hsessions⟩ hok hstep
  exact ⟨step_owned howned hstep, step_sessions howned hsessions hok hstep⟩

/-- **HTTP sessions are well bracketed** in every run in which a slot is picked only while no other
    thread has picked it without having stored its flow, and no destructor of a flow of the slot
    has still to run its command. -/
theorem runs_wellBracketed {as : List (Action Tid)}
    (h : Runs step PicksAlone (Threads.initial Tid) as st) : WellBracketed st :=
  (runs_sessions h).2.wellBracketed (runs_sessions h).1

/-! ### Every other pick leads to interleaved sessions -/

/-- A thread that has picked a slot may break into the session of the slot, if there is one. -/
theorem interleaved_of_current {s : Fin kSlots} {a : Nat} (hrunning : st.terminated = false)
    (hpc : st.pc t = .picked s) (hcurrent : run (bracket s) none st.issued = some (some a)) :
    ∃ as st'', Runs step anyAction st as st'' ∧ ¬WellBracketed st'' := by
  refine ⟨[.create t sampleUrl .ok], _, .single trivial (step_create_ok hrunning hpc sampleUrl), ?_⟩
  intro h
  have haccepted := h.accepted s
  have hnone : run (bracket s) none
      (st.issued ++ [⟨some t, st.heap.next, .httpCreate s sampleUrl.host, .ok⟩]) = none := by
    rw [run_snoc hcurrent]
    simp [bracket, AtCommand.slot]
  have hissued : (run (bracket s) none
      (st.issued ++ [⟨some t, st.heap.next, .httpCreate s sampleUrl.host, .ok⟩])).isSome = true :=
    haccepted
  rw [hnone] at hissued
  cases hissued

/-- **A slot that is picked while it is busy** may get two sessions at once. -/
theorem interleaved_of_pick (h : Sessions st) (hstep : step st (.pick t) = some st')
    (hnot : ¬PicksAlone st (.pick t)) :
    ∃ as st'', Runs step anyAction st' as st'' ∧ ¬WellBracketed st'' := by
  simp only [PicksAlone, not_forall, not_not] at hnot
  obtain ⟨s, hnext, hbusy⟩ := hnot
  obtain ⟨hidle, rfl⟩ := step_pick hnext hstep
  have hrunning := running_of_step hstep
  have hpc : (st.goto t (.picked s)).pc t = .picked s := goto_pc_self ..
  obtain ⟨current, hrun, hcurrent⟩ := h.current s
  -- a session of the slot is open, or another thread has picked the slot too
  have hcases : (∃ a, st.InSession s a) ∨ ∃ u, u ≠ t ∧ st.pc u = .picked s := by
    rcases hbusy with ⟨u, hu⟩ | ⟨u, a, hu⟩
    · cases hpcu : st.pc u with
      | picked s' =>
        have hne : u ≠ t := by
          rintro rfl
          rw [hidle] at hpcu
          cases hpcu
        have hs : s' = s := by simpa [hpcu, Pc.claims] using hu
        exact Or.inr ⟨u, hne, by rw [← hs, hpcu]⟩
      | holding stage s' a =>
        cases stage with
        | created =>
          have hs : s' = s := by simpa [hpcu, Pc.claims] using hu
          refine Or.inl ⟨a, some u, Or.inl ?_⟩
          show (st.pc u).held = _
          rw [hpcu, ← hs]
          rfl
        | _ =>
          rw [hpcu] at hu
          cases hu
      | _ =>
        rw [hpcu] at hu
        cases hu
    · exact Or.inl ⟨a, u, Or.inr hu⟩
  rcases hcases with ⟨a, ha⟩ | ⟨u, hut, hu⟩
  · rw [(hcurrent a).mpr ha] at hrun
    exact interleaved_of_current hrunning hpc hrun
  · have hpcu : (st.goto t (.picked s)).pc u = .picked s := (goto_pc_of_ne hut ..).trans hu
    have hrunning' : (st.goto t (.picked s)).terminated = false := hrunning
    have hcreate := step_create_ok hrunning' hpcu sampleUrl
    let st₁ := { (st.goto t (.picked s)).record (some u) st.heap.next
        (.httpCreate s sampleUrl.host) .ok with
          heap := st.heap.make ⟨s, sampleUrl.host, sampleUrl.path, []⟩ }.goto u
            (.holding .created s st.heap.next)
    have hrunning₁ : st₁.terminated = false := hrunning
    have hpc₁ : st₁.pc t = .picked s := (goto_pc_of_ne (Ne.symm hut) ..).trans hpc
    have hrun₁ : run (bracket s) none st₁.issued = some (some st.heap.next) := by
      show run (bracket s) none
        (st.issued ++ [⟨some u, st.heap.next, .httpCreate s sampleUrl.host, .ok⟩]) = _
      rw [run_snoc hrun, h.current_none hu hcurrent, bracket_create]
      rfl
    obtain ⟨as, st'', hruns, hbad⟩ := interleaved_of_current hrunning₁ hpc₁ hrun₁
    exact ⟨[.create u sampleUrl .ok] ++ as, st'', (Runs.single trivial hcreate).append hruns, hbad⟩

end Steps

/-- Two requests of one thread, one after the other. -/
theorem two_requests_wellBracketed : ∃ st, Runs step PicksAlone (Threads.initial Unit)
    (oneRequest () ++ oneRequest ()) st ∧ WellBracketed st :=
  ⟨_, runs_checked_get (by decide), runs_wellBracketed (runs_checked_get (by decide))⟩

/-- **Interleaved sessions**: the second thread picks the slot while the first one has not stored
    its flow, and both create a session in it. -/
theorem interleaved_sessions : ∃ as st, Runs step anyAction (Threads.initial Bool) as st ∧
    ¬WellBracketed st := by
  refine ⟨[.pick false, .pick true, .create false sampleUrl .ok, .create true sampleUrl .ok], _,
    runs_get (by decide), ?_⟩
  intro h
  have haccepted := h.accepted slot0
  revert haccepted
  decide

end Http

end RtCharger.Devices
