import RtCharger.Lib.StepSystem
import RtCharger.Os.Queue

namespace RtCharger.Os.Queue

open Kernel StepSystem

/-!
# The queue is first in, first out

No value is lost, doubled or overtaken, whatever the threads in `push` and `pop` do and however
often `e.wait()` returns for a signal that is out of date.

* `Tested` — what `pop` has read of `q.empty()` still holds when it acts on it;
* `Logged` — what went in is what came out, followed by what is still there;
* `queue_fifo` — every run.
-/

variable {Tid T : Type} [DecidableEq Tid] {s s' : State Tid T} {t : Tid}

/-- The values of one thread. -/
def valuesOf (t : Tid) (l : List (Tid × T)) : List T :=
  (l.filter fun x => decide (x.1 = t)).map Prod.snd

@[simp] theorem valuesOf_append (t : Tid) (l l' : List (Tid × T)) :
    valuesOf t (l ++ l') = valuesOf t l ++ valuesOf t l' := by
  simp [valuesOf]

@[simp] theorem valuesOf_self (t : Tid) (v : T) : valuesOf t [(t, v)] = [v] := by
  simp [valuesOf]

theorem valuesOf_other {t u : Tid} (v : T) (hne : u ≠ t) : valuesOf u [(t, v)] = [] := by
  simp [valuesOf, Ne.symm hne]

/-- First in, first out: what `pop` has taken, in the order of the removals, followed by the
    content, is what `push` has inserted; the pops of a thread return what they have taken;
    no front of an empty queue is taken; and every access is by the owner of the mutex. -/
structure Fifo (s : State Tid T) : Prop where
  order : s.removed.map Prod.snd ++ s.q = s.inserted
  returned : ∀ t, valuesOf t s.returned ++ (s.pc t).result = valuesOf t s.removed
  front : ∀ t, s.pc t = .popTake → s.q ≠ []
  locked : ∀ t, (s.pc t).accesses = true → s.m.owner = some t

/-! ### What a `pop` has read -/

/-- The content is as the `pop` in a locked section has found it. -/
structure Tested (s : State Tid T) : Prop where
  full : ∀ u, s.pc u = .popTake → s.q ≠ []
  empty : ∀ u, s.pc u = .popUnlock → s.q = []

/-- A thread that stays in a locked section while another one steps finds the queue as it
    was. -/
theorem Nexted.q_kept {u : Tid} (hinv : Inv s) (h : Nexted s t s') (hne : u ≠ t)
    (hold : (s'.pc u).holds = true) : s'.pc u = s.pc u ∧ s'.q = s.q := by
  rcases h.pc_other hinv hne with hpc | ⟨_, hwoken⟩
  · -- only one of the two can be in a locked section, and only there the queue changes
    rw [hpc] at hold
    refine ⟨hpc, ?_⟩
    rcases h.q_eq with hq | ht
    · exact hq
    · exact absurd (hinv.lock.unique ht hold) hne
  · rw [hwoken] at hold
    cases hold

omit [DecidableEq Tid] in
theorem Locks.tested {pc pc' : Pc T} (h : Locks pc pc') : pc' ≠ .popTake ∧ pc' ≠ .popUnlock := by
  cases h <;> exact ⟨nofun, nofun⟩

omit [DecidableEq Tid] in
theorem Unlocks.tested {pc pc' : Pc T} (h : Unlocks pc pc') :
    pc' ≠ .popTake ∧ pc' ≠ .popUnlock := by
  cases h <;> exact ⟨nofun, nofun⟩

theorem Nexted.tested_self (h : Nexted s t s') :
    (s'.pc t = .popTake → s'.q ≠ []) ∧ (s'.pc t = .popUnlock → s'.q = []) := by
  cases h with
  | lock hlk => simp [hlk.tested]
  | unlock hul => simp [hul.tested]
  | testEmpty _ hq => simp [hq]
  | testFull _ hq => simp [hq]
  | wait => simp only [State.wait, goto_pc, Function.update_self]; split <;> simp
  | _ => simp

theorem step_tested {a : Act Tid T} (hinv : Inv s) (ht : Tested s) (h : step s a = some s') :
    Tested s' := by
  cases a with
  | call t c =>
    simp only [step] at h
    split at h
    · obtain rfl := Option.some.inj h
      refine ⟨?_, ?_⟩ <;> intro u hu <;> by_cases hut : u = t
      · subst hut
        cases c <;> simp [Call.entry] at hu
      · exact ht.full u (by simpa [hut] using hu)
      · subst hut
        cases c <;> simp [Call.entry] at hu
      · exact ht.empty u (by simpa [hut] using hu)
    · cases h
  | next t =>
    have hn := next_nexted hinv.lock h
    refine ⟨?_, ?_⟩ <;> intro u hu <;> by_cases hut : u = t
    · subst hut
      exact hn.tested_self.1 hu
    · obtain ⟨hpc, hq⟩ := hn.q_kept hinv hut (by rw [hu]; rfl)
      rw [hq]
      exact ht.full u (hpc ▸ hu)
    · subst hut
      exact hn.tested_self.2 hu
    · obtain ⟨hpc, hq⟩ := hn.q_kept hinv hut (by rw [hu]; rfl)
      rw [hq]
      exact ht.empty u (hpc ▸ hu)

/-! ### What went in and what came out -/

/-- The logs agree with the content and with the values under way. -/
structure Logged (s : State Tid T) : Prop where
  order : s.removed.map Prod.snd ++ s.q = s.inserted
  returned : ∀ t, valuesOf t s.returned ++ (s.pc t).result = valuesOf t s.removed

omit [DecidableEq Tid] in
theorem Locks.result {pc pc' : Pc T} (h : Locks pc pc') : pc'.result = pc.result := by
  cases h <;> rfl

omit [DecidableEq Tid] in
theorem Unlocks.result {pc pc' : Pc T} (h : Unlocks pc pc') : pc'.result = pc.result := by
  cases h <;> rfl

/-- Nobody but `t` takes or returns a value in a step of `t`. -/
theorem Nexted.result_other {u : Tid} (hinv : Inv s) (h : Nexted s t s') (hne : u ≠ t) :
    (s'.pc u).result = (s.pc u).result := by
  rcases h.pc_other hinv hne with hpc | ⟨hsusp, hwoken⟩
  · rw [hpc]
  · rw [hsusp, hwoken]
    rfl

/-- A step that leaves the logs, the content and the value of `t` alone. -/
theorem Logged.keep (hl : Logged s) (hinv : Inv s) (h : Nexted s t s') (hq : s'.q = s.q)
    (hins : s'.inserted = s.inserted) (hrem : s'.removed = s.removed)
    (hret : s'.returned = s.returned) (hself : (s'.pc t).result = (s.pc t).result) :
    Logged s' := by
  refine ⟨?_, ?_⟩
  · rw [hrem, hq, hins]
    exact hl.order
  · intro u
    rw [hret, hrem, ← hl.returned u]
    by_cases hu : u = t
    · subst hu
      rw [hself]
    · rw [h.result_other hinv hu]

theorem next_logged (hinv : Inv s) (hl : Logged s) (h : Nexted s t s') : Logged s' := by
  have hother := fun {u : Tid} (hu : u ≠ t) => h.result_other hinv hu
  cases h with
  | insert hpc =>
    -- the value goes in behind the others
    refine ⟨?_, ?_⟩
    · show s.removed.map Prod.snd ++ (s.q ++ _) = s.inserted ++ _
      rw [← List.append_assoc, hl.order]
    · intro u
      have hu := hl.returned u
      by_cases hut : u = t
      · subst hut
        simpa [hpc, Pc.result] using hu
      · simpa [hut] using hu
  | @take v q hpc hq =>
    refine ⟨?_, ?_⟩
    · show (s.removed ++ [(t, v)]).map Prod.snd ++ q = s.inserted
      rw [← hl.order, hq]
      simp
    · intro u
      have hu := hl.returned u
      by_cases hut : u = t
      · -- the value taken is under way
        subst hut
        simpa [hpc, Pc.result] using hu
      · simpa [hut, valuesOf_other v hut] using hu
  | @ret v hpc =>
    -- the value under way is returned
    refine ⟨hl.order, ?_⟩
    intro u
    have hu := hl.returned u
    by_cases hut : u = t
    · subst hut
      simpa [hpc, Pc.result] using hu
    · simpa [hut, valuesOf_other v hut] using hu
  | lock hlk hfree =>
    exact hl.keep hinv (.lock hlk hfree) rfl rfl rfl rfl (by simpa using hlk.result)
  | unlock hul =>
    exact hl.keep hinv (.unlock hul) rfl rfl rfl rfl (by simpa using hul.result)
  | set hpc =>
    exact hl.keep hinv (.set hpc) (by simp) (by simp) (by simp) (by simp) (by simp [hpc, Pc.result])
  | testEmpty hpc hq =>
    exact hl.keep hinv (.testEmpty hpc hq) rfl rfl rfl rfl (by simp [hpc, Pc.result])
  | testFull hpc hq =>
    exact hl.keep hinv (.testFull hpc hq) rfl rfl rfl rfl (by simp [hpc, Pc.result])
  | wait hpc =>
    refine hl.keep hinv (.wait hpc) rfl rfl rfl rfl ?_
    simp only [State.wait, goto_pc, Function.update_self, hpc]
    split <;> rfl
  | look hpc => exact hl.keep hinv (.look hpc) rfl rfl rfl rfl (by simp [hpc, Pc.result])

theorem step_logged {a : Act Tid T} (hinv : Inv s) (hl : Logged s) (h : step s a = some s') :
    Logged s' := by
  cases a with
  | call t c =>
    simp only [step] at h
    split at h
    · rename_i hpc
      obtain rfl := Option.some.inj h
      refine ⟨hl.order, ?_⟩
      intro u
      have hu := hl.returned u
      by_cases hut : u = t
      · subst hut
        rw [hpc] at hu
        cases c <;> simpa [Call.entry, Pc.result] using hu
      · simpa [hut] using hu
    · cases h
  | next t => exact next_logged hinv hl (next_nexted hinv.lock h)

/-! ### Every run -/

/-- What holds along every run. -/
theorem runs_tested {ok : State Tid T → Act Tid T → Prop} {signalled : Bool}
    {as : List (Act Tid T)} (h : Runs step ok (initial Tid T signalled) as s) :
    Inv s ∧ Tested s ∧ Logged s := by
  refine h.invariant (fun s => Inv s ∧ Tested s ∧ Logged s) ?_ ⟨initial_inv Tid T signalled, ?_, ?_⟩
  · rintro s a s' ⟨hinv, ht, hl⟩ _ hs
    exact ⟨step_inv hinv hs, step_tested hinv ht hs, step_logged hinv hl hs⟩
  · exact ⟨fun _ hu => (nomatch hu), fun _ hu => (nomatch hu)⟩
  · exact ⟨rfl, fun _ => rfl⟩

/-- **First in, first out.**  In every reachable state of a queue, with any number of threads
    pushing, popping and asking whether it is empty. -/
theorem queue_fifo {signalled : Bool} {as : List (Act Tid T)}
    (h : Runs step anyAction (initial Tid T signalled) as s) : Fifo s := by
  obtain ⟨hinv, ht, hl⟩ := runs_tested h
  refine ⟨hl.order, hl.returned, ht.full, ?_⟩
  intro t hacc
  rw [hinv.lock.owner (Pc.holds_of_accesses hacc), mutexOf_owner]

/-- The event starts signalled, a `pop` wakes for nothing and waits again, and then gets the
    value. -/
theorem queue_fifo_spurious : ∃ s, Runs step anyAction (initial Nat Nat true)
      ([.call 0 .pop, .call 1 (.push 5)] ++ List.replicate 8 (.next 0) ++
        List.replicate 4 (.next 1) ++ List.replicate 4 (.next 0)) s ∧ Fifo s :=
  ⟨_, runs_get (by rfl), queue_fifo (runs_get (by rfl))⟩

end RtCharger.Os.Queue
