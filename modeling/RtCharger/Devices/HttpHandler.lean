import RtCharger.Devices.HttpOwnership
import RtCharger.Devices.HttpResponse

namespace RtCharger.Devices

open Effect OneHot SharedHeap StepSystem RtCharger.Kernel RtCharger.Net RtCharger.Os

/-!
# The handler in steps

The steps of the parser are those of the handler of a line: while nobody else takes a step, they
do to the component what the handler, run on the text of the line, does at once.

* `Threads.http` — the component as the handler sees it;
* `live_modify` — the flow that is written is seen in its own slot only;
* `runs_handle` — the four steps against `AtUrcBuilder`'s handler.
-/

namespace Http

variable {Tid : Type} {st st' : Threads Tid} {s : Fin kSlots} {a : Nat}

/-- The component without its threads. -/
def Threads.http (st : Threads Tid) : Http Tid := ⟨st.live, st.event⟩

/-- Writing a flow writes what its slot locks, and no other slot. -/
theorem live_modify (h : Owned st) (hslot : st.slots s = some a) {flow : Flow}
    (hget : st.heap.get a = some flow) (f : Flow → Flow) :
    (fun s' => (st.slots s').bind (st.heap.modify a f).get)
      = Function.update st.live s ((st.live s).map f) := by
  funext s'
  by_cases hs : s' = s
  · subst hs
    rw [Function.update_self, Threads.live, hslot]
    exact get_modify_self ..
  · rw [Function.update_of_ne hs, Threads.live]
    cases hs' : st.slots s' with
    | none   => rfl
    | some b =>
      -- the flow belongs to one slot
      have hne : b ≠ a := by
        rintro rfl
        have hmine := h.weak_slot s b flow hslot hget
        exact hs ((h.weak_slot s' b flow hs' hget).symm.trans hmine)
      exact get_modify_of_ne _ _ hne

section Steps

variable [DecidableEq Tid] {chunk : List UInt8} {final : Bool}

/-- The flow of a live slot is locked. -/
theorem step_line_live (hrunning : st.terminated = false) (hparser : st.parser = .idle)
    (hslot : st.slots s = some a) {flow : Flow} (hget : st.heap.get a = some flow) :
    step st (.line s chunk final)
      = some { st with heap := st.heap.acquire a, parser := .locked s a chunk final } := by
  simp [step, hrunning, hparser, hslot, hget]

theorem step_call (hrunning : st.terminated = false)
    (hparser : st.parser = .locked s a chunk final) :
    step st .call = some { st with
      heap := st.heap.modify a fun flow => { flow with response := flow.response ++ chunk }
      parser := .called s a final
      finals := if final then st.finals ++ [a] else st.finals } := by
  simp [step, hrunning, hparser]

/-- While a thread has a reference to the flow, the handler does not drop the last one. -/
theorem step_release_held (h : Owned st) (hrunning : st.terminated = false)
    (hparser : st.parser = .called s a final) (hthread : st.HeldByThread a) :
    step st .release
      = some { st with heap := st.heap.release a, parser := .returned s final } ∧
      (st.heap.release a).get a = st.heap.get a := by
  obtain ⟨st', hstep⟩ : ∃ st', step st .release = some st' := by
    simp [step, hrunning, hparser]
  have howned' := step_owned h hstep
  obtain ⟨hlast, rfl⟩ : ((st.heap.release a).get a).isSome = true ∧
      st' = { st with heap := st.heap.release a, parser := .returned s final } := by
    cases step_did hstep with
    | command haction _ _ _ _ =>
      rcases haction with haction | ⟨_, haction⟩ <;> cases haction
    | release hparser' hlast =>
      rw [hparser] at hparser'
      cases hparser'
      exact ⟨hlast, rfl⟩
    | releaseLast hparser' hlast =>
      rw [hparser] at hparser'
      cases hparser'
      obtain ⟨flow, hflow⟩ := howned'.exists_get (Or.inl hthread)
      have hsome : (st.heap.release a).get a = some flow := hflow
      rw [hlast] at hsome
      cases hsome
  obtain ⟨flow, hflow⟩ := Option.isSome_iff_exists.mp hlast
  exact ⟨hstep, hflow.trans (get_of_get_release hflow).symm⟩

/-- The threads that are resumed change nothing else. -/
theorem http_completeAll (st : Threads Tid) (ws : List (Waiter Tid)) :
    (st.completeAll ws).http = st.http := by
  have hsame := completeAll_sameRefs st ws
  have hevent := (completeAll_frame st ws).1
  show (⟨fun s => ((st.completeAll ws).slots s).bind (st.completeAll ws).heap.get,
    (st.completeAll ws).event⟩ : Http Tid) = st.http
  rw [hsame.heap, hsame.slots, hevent]
  rfl

/-- The event of the slot is set, if the flag of the line was zero. -/
theorem step_raise (hrunning : st.terminated = false) (hparser : st.parser = .returned s final) :
    ∃ st', step st .raise = some st' ∧
      st'.http = if final then st.http.raise s else st.http := by
  cases final with
  | false =>
    refine ⟨{ st with parser := .idle }, ?_, rfl⟩
    simp [step, hrunning, hparser]
  | true =>
    refine ⟨_, by simp [step, hrunning, hparser]; rfl, ?_⟩
    exact http_completeAll _ _

/-- **The steps of the parser are the handler.**  When a thread has a reference to the flow of
    the slot and nobody else takes a step, they do what the handler does with the line. -/
theorem runs_handle (h : Owned st) (hrunning : st.terminated = false)
    (hparser : st.parser = .idle) (hslot : st.slots s = some a) (hthread : st.HeldByThread a)
    (l : ContentLine s) :
    ∃ st', Runs step anyAction st
        [.line s l.chunk (decide (l.flag = 0)), .call, .release, .raise] st' ∧
      ((responseProbe Tid).handle l.uninitialised l.text).run st.http
        = (.returned (), st'.http) := by
  obtain ⟨flow, hget⟩ := h.exists_get (Or.inl hthread)
  have hlive : st.http.slots s = some flow := by
    show (st.slots s).bind st.heap.get = some flow
    rw [hslot, Option.bind_some, hget]
  let final := decide (l.flag = 0)
  let st₁ := { st with heap := st.heap.acquire a, parser := .locked s a l.chunk final }
  have hline : step st (.line s l.chunk final) = some st₁ :=
    step_line_live hrunning hparser hslot hget
  have howned₁ := step_owned h hline
  let st₂ := { st₁ with
    heap := st₁.heap.modify a fun flow => { flow with response := flow.response ++ l.chunk }
    parser := .called s a final
    finals := if final then st₁.finals ++ [a] else st₁.finals }
  have hrunning₁ : st₁.terminated = false := hrunning
  have hcall : step st₁ .call = some st₂ := step_call hrunning₁ rfl
  have hrunning₂ : st₂.terminated = false := hrunning
  obtain ⟨hrelease, hkept⟩ :=
    step_release_held (step_owned howned₁ hcall) hrunning₂ rfl hthread
  let st₃ := { st₂ with heap := st₂.heap.release a, parser := .returned s final }
  have hrunning₃ : st₃.terminated = false := hrunning
  have hreturned : st₃.parser = .returned s final := rfl
  obtain ⟨st', hraise, hhttp⟩ := step_raise hrunning₃ hreturned
  have hline' : Runs step anyAction st [.line s l.chunk final] st₁ := .single trivial hline
  refine ⟨st', ((hline'.snoc trivial hcall).snoc trivial hrelease).snoc trivial hraise, ?_⟩
  have happended : st₃.http = st.http.append s l.chunk := by
    have hlocked : st₁.heap.get = st.heap.get := funext fun b => get_acquire ..
    have hdropped : st₃.heap.get = st₂.heap.get := by
      funext b
      by_cases hb : b = a
      · rw [hb]
        exact hkept
      · exact get_release_of_ne _ hb
    have hwritten := live_modify howned₁ hslot ((congrFun hlocked a).trans hget)
      fun flow => { flow with response := flow.response ++ l.chunk }
    have hlive₁ : st₁.live = st.live := by
      show (fun s' => (st.slots s').bind st₁.heap.get) = _
      rw [hlocked]
      rfl
    rw [hlive₁] at hwritten
    show (⟨fun s' => (st.slots s').bind st₃.heap.get, st.event⟩ : Http Tid) = _
    rw [hdropped]
    exact congrArg (Http.mk · st.event) hwritten
  rw [run_handle_line l hlive, hhttp, happended]
  by_cases hflag : l.flag = 0
  · simp [final, hflag]
  · simp [final, hflag]

end Steps

end Http

end RtCharger.Devices
