import RtCharger.Lib.Counting
import RtCharger.Os.QueueFifo

namespace RtCharger.Os.Queue

open Kernel StepSystem Counting

/-!
# Wake-ups of the queue

`push` sets an event that remembers one signal only, and `pop` gives the mutex back before it
waits.  While two threads stand between the two, a second push finds the event set already, and
its signal is gone.

* `lost_wakeup` — two poppers, two pushes, and in the end a popper sleeps beside a value;
* `SetSafe` — a push that finds the event set does not need its own signal;
* `Woken`, `step_woken` — the values in the queue are covered by poppers on their way to it, a
  signal or a push about to give one;
* `no_lost_wakeup` — under the condition no wake-up is lost;
* `one_popper_no_lost_wakeup` — with one popping thread the condition always holds.
-/

variable {Tid T : Type}

/-- The thread is in neither `push` nor `pop`. -/
def Pc.outside : Pc T → Bool
  | .idle | .emptyLock | .emptyTest | .emptyUnlock _ => true
  | _ => false

/-- `1` for a popper on its way to the queue: it will test `q.empty()` or take the front. -/
def Pc.coming : Pc T → Nat
  | .popLock | .popTest | .popRelock | .popTake => 1
  | _ => 0

/-- `1` for a popper that has given the mutex back and has not called `e.wait()` yet. -/
def Pc.leaving : Pc T → Nat
  | .popWait => 1
  | _ => 0

/-- `1` for a pusher between the insertion and `e.set()`. -/
def Pc.setting : Pc T → Nat
  | .pushSet => 1
  | _ => 0

/-- A lost wake-up: the queue is not empty, a popper is suspended with the event clear, and
    every other thread is outside `push` and `pop`. -/
def LostWakeup (s : State Tid T) : Prop :=
  s.q ≠ [] ∧ s.e.flag = false ∧
    ∃ t, s.pc t = .popSuspended ∧ ∀ u, u ≠ t → (s.pc u).outside = true

variable [Fintype Tid]

/-- The poppers on their way to the queue. -/
def coming (s : State Tid T) : Nat := total Pc.coming s.pc

/-- The poppers between `m.unlock()` and `e.wait()`. -/
def leaving (s : State Tid T) : Nat := total Pc.leaving s.pc

/-- The pushers between the insertion and `e.set()`. -/
def setting (s : State Tid T) : Nat := total Pc.setting s.pc

/-- The condition on `e.set()`: when the event is set already, at most one popper stands between
    `m.unlock()` and `e.wait()`, or the queue has at most one value more than poppers on their
    way to it. -/
def SetSafe (s : State Tid T) : Act Tid T → Prop
  | .next t =>
    s.pc t = .pushSet → s.e.flag = true → leaving s ≤ 1 ∨ s.q.length ≤ coming s + 1
  | .call _ _ => True

instance [DecidableEq T] (s : State Tid T) (a : Act Tid T) : Decidable (SetSafe s a) := by
  cases a <;> unfold SetSafe <;> infer_instance

/-- **A lost wake-up.**  Threads `0` and `1` find the queue empty and stop before they wait;
    thread `2` pushes twice; thread `0` takes one value and the only signal, and thread `1`
    sleeps beside the other value. -/
theorem lost_wakeup :
    ∃ as s, Runs step anyAction (initial (Fin 3) Nat false) as s ∧ LostWakeup s := by
  -- `stops` is a `pop` up to its `e.wait()`, `pushes` a whole `push`, and `takes` a `pop` from
  -- the wait to the return
  let stops (t : Fin 3) : List (Act (Fin 3) Nat) := [.call t .pop, .next t, .next t, .next t]
  let pushes (v : Nat) : List (Act (Fin 3) Nat) :=
    [.call 2 (.push v), .next 2, .next 2, .next 2, .next 2]
  let takes : List (Act (Fin 3) Nat) := [.next 0, .next 0, .next 0, .next 0, .next 0]
  refine ⟨stops 0 ++ stops 1 ++ pushes 5 ++ pushes 6 ++ takes ++ [.next 1], _,
    runs_get (by rfl), ?_⟩
  refine ⟨by decide, by decide, 1, by decide, by decide⟩

/-! ### The values are covered -/

/-- Every value is covered, unless nobody would wait for it: by a popper on its way, by a pusher
    about to set the event, or by the event if it is set. -/
structure Woken (s : State Tid T) : Prop where
  clear : s.e.flag = false → 0 < leaving s + (AutoReset.suspended s.e).length →
    s.q.length ≤ coming s + setting s
  signalled : s.e.flag = true → 2 ≤ leaving s → s.q.length ≤ coming s + 1 + setting s

theorem Woken.no_lost {s : State Tid T} (hw : Woken s) (hinv : Inv s) : ¬ LostWakeup s := by
  rintro ⟨hq, hflag, t, ht, hothers⟩
  have hzero : ∀ g : Pc T → Nat, g .popSuspended = 0 → (∀ pc, pc.outside = true → g pc = 0) →
      total g s.pc = 0 := by
    intro g hsusp hout
    refine total_eq_zero fun u => ?_
    by_cases hu : u = t
    · rw [hu, ht, hsusp]
    · exact hout _ (hothers u hu)
  have hcoming : coming s = 0 := hzero _ rfl fun pc h => by cases pc <;> first | rfl | cases h
  have hsetting : setting s = 0 := hzero _ rfl fun pc h => by cases pc <;> first | rfl | cases h
  have hasleep := List.length_pos_of_mem ((hinv.suspended t).mp ht)
  have hlen := hw.clear hflag (by omega)
  have hpos := List.length_pos_of_ne_nil hq
  omega

/-- An empty queue needs no cover. -/
theorem woken_of_empty {s : State Tid T} (hq : s.q = []) : Woken s :=
  ⟨fun _ _ => by simp [hq], fun _ _ => by simp [hq]⟩

theorem Locks.cover {pc pc' : Pc T} (h : Locks pc pc') :
    pc.coming + pc.setting ≤ pc'.coming + pc'.setting ∧ pc'.leaving ≤ pc.leaving := by
  cases h <;> simp [Pc.coming, Pc.setting, Pc.leaving]

/-- Except for the popper that has found the queue empty. -/
theorem Unlocks.cover {pc pc' : Pc T} (h : Unlocks pc pc') :
    pc = .popUnlock ∨
      (pc.coming + pc.setting ≤ pc'.coming + pc'.setting ∧ pc'.leaving ≤ pc.leaving) := by
  cases h with
  | pop => exact .inl rfl
  | push => exact .inr (by simp [Pc.coming, Pc.setting, Pc.leaving])
  | empty b => exact .inr (by simp [Pc.coming, Pc.setting, Pc.leaving])

variable [DecidableEq Tid] {s s' : State Tid T} {t : Tid} {pc' : Pc T}

/-- How the counts change when `t` moves. -/
theorem counts_update (s s' : State Tid T) (t : Tid) (hpc : s'.pc = Function.update s.pc t pc') :
    coming s' + (s.pc t).coming = coming s + pc'.coming ∧
      leaving s' + (s.pc t).leaving = leaving s + pc'.leaving ∧
        setting s' + (s.pc t).setting = setting s + pc'.setting := by
  simp only [coming, leaving, setting, hpc]
  exact ⟨total_update _ _ _ _, total_update _ _ _ _, total_update _ _ _ _⟩

/-- A step that leaves the event alone, and in which the cover grows with the content and shrinks
    with it. -/
theorem Woken.keep (hw : Woken s) (he : s'.e = s.e) (hpc : s'.pc = Function.update s.pc t pc')
    (hcover : s'.q.length + (s.pc t).coming + (s.pc t).setting ≤
      s.q.length + pc'.coming + pc'.setting)
    (hleave : pc'.leaving ≤ (s.pc t).leaving) : Woken s' := by
  obtain ⟨hc, hl, hs⟩ := counts_update s s' t hpc
  refine ⟨?_, ?_⟩
  · intro hflag hwait
    rw [he] at hflag hwait
    have hlen := hw.clear hflag (by omega)
    omega
  · intro hflag htwo
    rw [he] at hflag
    have hlen := hw.signalled hflag (by omega)
    omega

/-- The step `e.wait()`: a signal is exchanged for a popper on its way. -/
theorem Woken.wait (hw : Woken s) (hinv : Inv s) (hpc : s.pc t = .popWait) :
    Woken (s.wait t) := by
  obtain ⟨hc, hl, hs⟩ := counts_update s (s.wait t) t rfl
  have hflag' : (s.wait t).e.flag = false := AutoReset.flag_wait _ _ _
  have hsusp := AutoReset.suspended_wait s.e t waitForever_ne_zero
  refine ⟨?_, fun h => by rw [hflag'] at h; cases h⟩
  intro _ hwait
  show s.q.length ≤ _
  change 0 < leaving (s.wait t) + (AutoReset.suspended (AutoReset.wait s.e t waitForever)).length at hwait
  rw [hsusp] at hwait
  cases hf : s.e.flag with
  | true =>
    -- the signal is used up, and the popper comes instead
    have hnone : s.e.waiters = [] := hinv.wellFormed hf
    simp only [hf, if_true, hpc, Pc.coming, Pc.leaving, Pc.setting, AutoReset.suspended, hnone,
      List.map_nil, List.length_nil] at hc hl hs hwait
    have hlen := hw.signalled hf (by omega)
    omega
  | false =>
    -- one more suspended popper, and one fewer before its wait
    simp only [hf, if_false, hpc, Pc.coming, Pc.leaving, Pc.setting, Bool.false_eq_true] at hc hl hs
    have hlen := hw.clear hf (by omega)
    omega

/-- The step `e.set()`: a suspended popper comes, or the event is set. -/
theorem Woken.set (hw : Woken s) (hinv : Inv s) (hpc : s.pc t = .pushSet)
    (hok : s.e.flag = true → leaving s ≤ 1 ∨ s.q.length ≤ coming s + 1) :
    Woken (s.set.goto t .pushUnlock) := by
  have hq : (s.set.goto t .pushUnlock).q = s.q := by simp
  have hflag : (s.set.goto t .pushUnlock).e.flag =
      (s.e.flag || (AutoReset.suspended s.e).isEmpty) := by simp [AutoReset.flag_set]
  rcases hinv.set_pc with ⟨hnone, hsame⟩ | ⟨w, ws, hsome, hsusp, hset⟩
  · -- nobody is suspended: the event is set now
    obtain ⟨hc, hl, hs⟩ := counts_update s (s.set.goto t .pushUnlock) t
      (by rw [goto_pc, hsame])
    simp only [hpc, Pc.coming, Pc.leaving, Pc.setting] at hc hl hs
    rw [hnone] at hflag
    refine ⟨fun h => by rw [hflag] at h; simp at h, ?_⟩
    intro _ htwo
    rw [hq]
    cases hf : s.e.flag with
    | true =>
      -- the signal is lost: here the condition is needed
      rcases hok hf with hone | hlen <;> omega
    | false =>
      have hlen := hw.clear hf (by omega)
      omega
  · -- the one that waits longest comes
    have hf : s.e.flag = false := by
      by_contra hf
      have hnil : s.e.waiters = [] := hinv.wellFormed (by simpa using hf)
      simp [AutoReset.suspended, hnil] at hsome
    have hne : s.set.pc t = .pushSet := by
      rw [hset, Function.update_of_ne, hpc]
      rintro rfl
      rw [hpc] at hsusp
      cases hsusp
    obtain ⟨hc, hl, hs⟩ := counts_update s s.set w hset
    obtain ⟨hc', hl', hs'⟩ := counts_update s.set (s.set.goto t .pushUnlock) t rfl
    simp only [hsusp, Pc.coming, Pc.leaving, Pc.setting] at hc hl hs
    simp only [hne, Pc.coming, Pc.leaving, Pc.setting] at hc' hl' hs'
    rw [hf, hsome] at hflag
    refine ⟨?_, fun h => by rw [hflag] at h; simp at h⟩
    intro _ _
    have hlen := hw.clear hf (by rw [hsome, List.length_cons]; omega)
    rw [hq]
    omega

/-- **One action that meets the condition keeps every value covered.** -/
theorem step_woken {a : Act Tid T} (hinv : Inv s) (ht : Tested s) (hw : Woken s)
    (hok : SetSafe s a) (h : step s a = some s') : Woken s' := by
  cases a with
  | call t c =>
    simp only [step] at h
    split at h
    · rename_i hpc
      obtain rfl := Option.some.inj h
      refine hw.keep (t := t) rfl rfl ?_ ?_ <;> rw [hpc] <;>
        cases c <;> simp [Call.entry, Pc.coming, Pc.setting, Pc.leaving]
    · cases h
  | next t =>
    cases next_nexted hinv.lock h with
    | set hpc => exact hw.set hinv hpc (hok hpc)
    | wait hpc => exact hw.wait hinv hpc
    -- a popper that takes the mutex is on its way to the queue as before
    | lock hlk _ =>
      obtain ⟨hcover, hleave⟩ := hlk.cover
      exact hw.keep (t := t) rfl rfl (by simp only [goto_q]; omega) hleave
    | unlock hul =>
      rcases hul.cover with hpc | ⟨hcover, hleave⟩
      · -- a popper turns away, but it has found the queue empty
        exact woken_of_empty (ht.empty t hpc)
      · exact hw.keep (t := t) rfl rfl (by simp only [goto_q]; omega) hleave
    | testEmpty _ hq => exact woken_of_empty hq
    | insert hpc =>
      refine hw.keep (t := t) rfl rfl ?_ ?_ <;> simp [hpc, Pc.coming, Pc.setting, Pc.leaving]
    | testFull hpc _ =>
      refine hw.keep (t := t) rfl rfl ?_ ?_ <;> simp [hpc, Pc.coming, Pc.setting, Pc.leaving]
    | take hpc hq =>
      refine hw.keep (t := t) rfl rfl ?_ ?_ <;> simp [hpc, hq, Pc.coming, Pc.setting, Pc.leaving]
    | ret hpc =>
      refine hw.keep (t := t) rfl rfl ?_ ?_ <;> simp [hpc, Pc.coming, Pc.setting, Pc.leaving]
    | look hpc =>
      refine hw.keep (t := t) rfl rfl ?_ ?_ <;> simp [hpc, Pc.coming, Pc.setting, Pc.leaving]

/-- What holds along a run all of whose `e.set()`s meet the condition. -/
theorem runs_woken {signalled : Bool} {as : List (Act Tid T)}
    (h : Runs step SetSafe (initial Tid T signalled) as s) : Woken s := by
  induction h with
  | nil => exact woken_of_empty rfl
  | snoc hrun hok hstep ih =>
    obtain ⟨hinv, ht, _⟩ := runs_tested hrun
    exact step_woken hinv ht ih hok hstep

/-- **No wake-up is lost** in a run in which `e.set()` never finds the event set while two or
    more poppers stand before their `e.wait()` and the queue has two or more values more than
    poppers on their way to it. -/
theorem no_lost_wakeup {signalled : Bool} {as : List (Act Tid T)}
    (h : Runs step SetSafe (initial Tid T signalled) as s) : ¬ LostWakeup s :=
  (runs_woken h).no_lost (runs_tested h).1

/-- Two pushes share one signal, but only one popper stands before its `e.wait()`. -/
theorem no_lost_wakeup_shared : ∃ s, Runs step SetSafe (initial (Fin 2) Nat false)
      ([Act.call 0 .pop] ++ List.replicate 3 (Act.next 0) ++ [Act.call 1 (.push 5)] ++
        List.replicate 4 (Act.next 1) ++ [Act.call 1 (.push 6)] ++
        List.replicate 4 (Act.next 1) ++ [Act.next 0]) s ∧ ¬ LostWakeup s :=
  ⟨_, runs_checked_get (by decide), no_lost_wakeup (runs_checked_get (by decide))⟩

/-! ### One popping thread -/

omit [Fintype Tid] [DecidableEq Tid] in
/-- The thread is inside `pop`. -/
def Pc.popping : Pc T → Bool
  | .popLock | .popTest | .popUnlock | .popWait | .popSuspended | .popRelock | .popTake
  | .popReturn _ => true
  | _ => false

omit [Fintype Tid] [DecidableEq Tid] in
theorem Locks.popping {pc pc' : Pc T} (h : Locks pc pc') : pc'.popping = pc.popping := by
  cases h <;> rfl

omit [Fintype Tid] [DecidableEq Tid] in
theorem Unlocks.popping {pc pc' : Pc T} (h : Unlocks pc pc') : pc'.popping = pc.popping := by
  cases h <;> rfl

omit [Fintype Tid] in
/-- A thread gets into `pop` only by calling it. -/
theorem Nexted.popping_eq {u : Tid} (hinv : Inv s) (h : Nexted s t s')
    (hu : (s.pc u).popping = false) : (s'.pc u).popping = false := by
  by_cases hut : u = t
  · subst hut
    cases h with
    | lock hlk _ => simpa [hlk.popping] using hu
    | unlock hul => simpa [hul.popping] using hu
    | set => simp [Pc.popping]
    | insert => simp [Pc.popping]
    | ret => simp [Pc.popping]
    | look => simp [Pc.popping]
    | testEmpty hpc _ => rw [hpc] at hu; cases hu
    | testFull hpc _ => rw [hpc] at hu; cases hu
    | wait hpc => rw [hpc] at hu; cases hu
    | take hpc _ => rw [hpc] at hu; cases hu
  · rcases h.pc_other hinv hut with hpc | ⟨hsusp, _⟩
    · rw [hpc, hu]
    · rw [hsusp] at hu
      cases hu

omit [Fintype Tid] in
/-- If only `p` calls `pop`, only `p` is ever inside it. -/
theorem runs_popping {ok : State Tid T → Act Tid T → Prop} {signalled : Bool}
    {as : List (Act Tid T)} {p : Tid} (h : Runs step ok (initial Tid T signalled) as s)
    (hp : ∀ t, Act.call t .pop ∈ as → t = p) : ∀ u, u ≠ p → (s.pc u).popping = false := by
  induction h with
  | nil => exact fun _ _ => rfl
  | @snoc as s s' a hrun _ hstep ih =>
    have hold := ih fun t ht => hp t (List.mem_append_left _ ht)
    intro u hu
    cases a with
    | next t =>
      obtain ⟨hinv, _, _⟩ := runs_tested hrun
      exact (next_nexted hinv.lock hstep).popping_eq hinv (hold u hu)
    | call t c =>
      simp only [step] at hstep
      split at hstep
      · obtain rfl := Option.some.inj hstep
        by_cases hut : u = t
        · subst hut
          cases c with
          | pop => exact absurd (hp u (by simp)) hu
          | push v => simp [Call.entry, Pc.popping]
          | empty => simp [Call.entry, Pc.popping]
        · simpa [hut] using hold u hu
      · cases hstep

/-- **One popping thread loses no wake-up**: the queue of a `Post`, which only the polling
    thread pops. -/
theorem one_popper_no_lost_wakeup {signalled : Bool} {as : List (Act Tid T)} {p : Tid}
    (h : Runs step anyAction (initial Tid T signalled) as s)
    (hp : ∀ t, Act.call t .pop ∈ as → t = p) : ¬ LostWakeup s := by
  have hsafe : Runs step SetSafe (initial Tid T signalled) as s := by
    induction h with
    | nil => exact .nil
    | @snoc as s s' a hrun _ hstep ih =>
      have hold : ∀ t, Act.call t .pop ∈ as → t = p := fun t ht => hp t (List.mem_append_left _ ht)
      refine (ih hold).snoc ?_ hstep
      have hout := runs_popping hrun hold
      cases a with
      | call t c => trivial
      | next t =>
        -- at most `p` stands before its wait
        refine fun _ _ => .inl (total_le_one p ?_ ?_)
        · cases s.pc p <;> simp [Pc.leaving]
        · intro u hu
          have hpc := hout u hu
          revert hpc
          cases s.pc u <;> simp [Pc.leaving, Pc.popping]
  exact (runs_woken hsafe).no_lost (runs_tested hsafe).1

end RtCharger.Os.Queue
