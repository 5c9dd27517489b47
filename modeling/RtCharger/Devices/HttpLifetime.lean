import RtCharger.Devices.HttpOwnership

namespace RtCharger.Devices

open SharedHeap StepSystem RtCharger.Kernel RtCharger.Net

/-!
# Which thread destroys a flow

`~Flow` runs a command, which blocks until the parser delivers the response; so the parser must
not be the one that runs it.

* `DestroyedByRequesters` — the parser destroys no flow;
* `DropsAlone` — no thread leaves `send` while the handler has a reference to its flow;
* `Guest` — then the handler is only ever a guest of the thread that owns the flow;
* `runs_destroyed_by_requesters` — and no flow is destroyed by the parser;
* `parser_destroys` — a time-out in the middle of the handler is enough for it otherwise.
-/

namespace Http

variable {Tid : Type} {st st' : Threads Tid}

/-- The parser is not in a destructor, and every `AT+HTTPDESTROY` was issued by a thread. -/
structure DestroyedByRequesters (st : Threads Tid) : Prop where
  undestroyed : st.parser.destroys = none
  issued : ∀ i ∈ st.issued, ∀ s, i.cmd = .httpDestroy s → i.thread ≠ none

/-- A thread drops its reference only while the handler has none to the same flow. -/
def DropsAlone (st : Threads Tid) : Action Tid → Prop
  | .drop t => ∀ x ∈ (st.pc t).held, ∀ y ∈ st.parser.held, x.2 ≠ y.2
  | _       => True

instance (st : Threads Tid) : (action : Action Tid) → Decidable (DropsAlone st action)
  | .drop t =>
    inferInstanceAs (Decidable (∀ x ∈ (st.pc t).held, ∀ y ∈ st.parser.held, x.2 ≠ y.2))
  | .pick _ | .refuse _ | .create .. | .store _ | .connect .. | .send .. | .fail _ | .wait _ |
    .timeout _ | .destroy .. | .line .. | .call | .release | .destroyOnParser _ | .raise =>
    isTrue trivial

/-- The flow that the handler refers to has a thread too, and the parser destroys nothing. -/
structure Guest (st : Threads Tid) : Prop where
  host : ∀ a, st.HeldByParser a → st.HeldByThread a
  undestroyed : st.parser.destroys = none
  issued : ∀ i ∈ st.issued, i.thread ≠ none

theorem initial_guest (Tid : Type) : Guest (Threads.initial Tid) where
  host _ h := by
    obtain ⟨s, hs⟩ := h
    cases hs
  undestroyed := rfl
  issued _ hi := nomatch hi

/-- Steps that change no reference, and issue no command. -/
theorem Guest.sameRefs (h : Guest st) (hsame : SameRefs st st') (hissued : st'.issued = st.issued) :
    Guest st' where
  host a ha := by
    obtain ⟨s, hs⟩ := ha
    rw [hsame.parser_held] at hs
    obtain ⟨t, s', ht⟩ := h.host a ⟨s, hs⟩
    exact ⟨t, s', by rw [hsame.held, ht]⟩
  undestroyed := by
    cases hd : st'.parser.destroys with
    | none => rfl
    | some x =>
      have hold := hsame.parser_destroys x hd
      rw [h.undestroyed] at hold
      cases hold
  issued := by
    rw [hissued]
    exact h.issued

/-- A thread issues a command. -/
theorem Guest.record (h : Guest st) (t : Tid) (a : Nat) (cmd : AtCommand) (result : RtErr) :
    Guest (st.record (some t) a cmd result) where
  host := h.host
  undestroyed := h.undestroyed
  issued i hi := by
    rcases List.mem_append.mp hi with hi | hi
    · exact h.issued i hi
    · rw [List.mem_singleton.mp hi]
      exact Option.some_ne_none t

/-- Objects are made and dropped. -/
theorem Guest.heap (h : Guest st) (heap : Heap Flow) : Guest { st with heap := heap } :=
  ⟨h.host, h.undestroyed, h.issued⟩

/-- The handler has no reference any more. -/
theorem Guest.parser (h : Guest st) {p : ParserPc} (hheld : p.held = none)
    (hdestroys : p.destroys = none) : Guest { st with parser := p } where
  host b hb := by
    obtain ⟨s, hs⟩ := hb
    have hself : p.held = some (s, b) := hs
    rw [hheld] at hself
    cases hself
  undestroyed := hdestroys
  issued := h.issued

section Steps

variable [DecidableEq Tid] {t : Tid}

/-- A thread goes on; the other threads keep what they hold, and so does it unless the handler
    does not need it. -/
theorem Guest.goto (h : Guest st) {p : Pc}
    (hkeeps : ∀ s a, (st.pc t).held = some (s, a) → st.HeldByParser a → p.held = some (s, a)) :
    Guest (st.goto t p) where
  host b hb := by
    have hparser : st.HeldByParser b := hb
    obtain ⟨u, s', hu⟩ := h.host b hparser
    rw [heldByThread_goto]
    by_cases hut : u = t
    · rw [hut] at hu
      exact Or.inl ⟨s', hkeeps s' b hu hparser⟩
    · exact Or.inr ⟨u, s', hut, hu⟩
  undestroyed := h.undestroyed
  issued := h.issued

/-- A thread that holds nothing goes on. -/
theorem Guest.goto_of_none (h : Guest st) {p : Pc} (hheld : (st.pc t).held = none) :
    Guest (st.goto t p) := by
  refine h.goto fun s a hs => ?_
  rw [hheld] at hs
  cases hs

/-- A thread drops a reference that the handler does not need. -/
theorem Guest.drop (h : Guest st) (hok : DropsAlone st (.drop t)) (heap : Heap Flow) {p : Pc} :
    Guest ({ st with heap := heap }.goto t p) := by
  refine (h.heap heap).goto fun s b hheld hparser => ?_
  obtain ⟨s', hs'⟩ := hparser
  exact absurd rfl (hok (s, b) hheld (s', b) hs')

/-- A step keeps the handler a guest. -/
theorem step_guest {action : Action Tid} (howned : Owned st) (h : Guest st)
    (hok : DropsAlone st action) (hstep : step st action = some st') : Guest st' := by
  have howned' := step_owned howned hstep
  cases step_did hstep with
  | pick hpc _ => exact h.goto_of_none (by rw [hpc]; rfl)
  | exhausted _ _ => exact h
  | refuse hpc => exact h.goto_of_none (by rw [hpc]; rfl)
  | @create t s url hpc =>
    have hnone : (st.pc t).held = none := by rw [hpc]; rfl
    exact ((h.record t st.heap.next (.httpCreate s url.host) .ok).heap _).goto_of_none hnone
  | @uncreated t s url result hpc _ =>
    have hnone : (st.pc t).held = none := by rw [hpc]; rfl
    exact ((h.record t st.heap.next (.httpCreate s url.host) result).heap _).goto_of_none hnone
  | @store t s a hpc =>
    have hstored : Guest { st with slots := Function.update st.slots s (some a) } :=
      ⟨h.host, h.undestroyed, h.issued⟩
    have hcreated : ({ st with slots := Function.update st.slots s (some a) } : Threads Tid).pc t
        = .holding .created s a := hpc
    exact hstored.sameRefs (stage_sameRefs hcreated) rfl
  | @command _ t _ _ s a cmd result _ hpc _ _ _ =>
    exact (h.record t a cmd result).sameRefs (stage_sameRefs hpc) rfl
  | fail hpc _ => exact h.sameRefs (stage_sameRefs hpc) rfl
  | received hpc _ => exact h.sameRefs ((event_sameRefs st _ _).trans (stage_sameRefs hpc)) rfl
  | suspended hpc _ =>
    exact h.sameRefs ((event_sameRefs st _ st.completed).trans (stage_sameRefs hpc)) rfl
  | timeout hpc _ =>
    exact h.sameRefs ((event_sameRefs st _ st.completed).trans (stage_sameRefs hpc)) rfl
  | drop _ _ => exact h.drop hok _
  | dropLast _ _ => exact h.drop hok _
  | @destroy t s a result hpc =>
    have hnone : (st.pc t).held = none := by rw [hpc]; rfl
    have hrecorded := h.record t a (.httpDestroy s) result
    have hdestroyed : Guest (st.destroySession (some t) s a result) :=
      ⟨hrecorded.host, hrecorded.undestroyed, hrecorded.issued⟩
    exact hdestroyed.goto_of_none hnone
  | @lock s a flow chunk final hparser hslot hget =>
    refine ⟨fun b hb => ?_, rfl, h.issued⟩
    obtain ⟨s', hs'⟩ := hb
    cases hs'
    -- the flow lives, and the parser had no reference to any
    rcases (howned.alive_iff a).mp (by rw [hget]; rfl) with hthread | ⟨s₁, hs₁⟩
    · exact hthread
    · rw [hparser] at hs₁
      cases hs₁
  | unmatched _ _ => exact h
  | @call s a chunk final hparser =>
    refine ⟨fun b hb => ?_, rfl, h.issued⟩
    obtain ⟨s', hs'⟩ := hb
    cases hs'
    exact h.host a ⟨s, by rw [hparser]; rfl⟩
  | release _ _ => exact (h.heap _).parser rfl rfl
  | @releaseLast s a final hparser hlast =>
    -- the thread of the flow still has its reference
    obtain ⟨t, s', ht⟩ := h.host a ⟨s, by rw [hparser]; rfl⟩
    obtain ⟨flow, hflow⟩ := howned'.exists_get (Or.inl ⟨t, s', ht⟩)
    have hnone : (st.heap.release a).get a = some flow := hflow
    rw [hlast] at hnone
    cases hnone
  | destroyOnParser hparser =>
    have hdestroys := h.undestroyed
    rw [hparser] at hdestroys
    cases hdestroys
  | @raise s hparser =>
    have hidle : Guest { st with parser := .idle } := h.parser rfl rfl
    have hset : Guest { st with event := st.event.set (OneHot.oneHot (doneBit s)), parser := .idle } :=
      ⟨hidle.host, hidle.undestroyed, hidle.issued⟩
    exact hset.sameRefs (completeAll_sameRefs _ _) (completeAll_frame _ _).2.2.1
  | lower _ => exact h.parser rfl rfl

/-- In every run in which threads leave alone, the handler is a guest. -/
theorem runs_guest {as : List (Action Tid)}
    (h : Runs step DropsAlone (Threads.initial Tid) as st) : Owned st ∧ Guest st := by
  refine h.invariant (fun st => Owned st ∧ Guest st) ?_ ⟨initial_owned Tid, initial_guest Tid⟩
  rintro st₁ action st₂ ⟨howned, hguest⟩ hok hstep
  exact ⟨step_owned howned hstep, step_guest howned hguest hok hstep⟩

/-- **The parser destroys no flow**, in any run in which no thread drops its reference while the
    handler has one to the same flow. -/
theorem runs_destroyed_by_requesters {as : List (Action Tid)}
    (h : Runs step DropsAlone (Threads.initial Tid) as st) : DestroyedByRequesters st where
  undestroyed := (runs_guest h).2.undestroyed
  issued i hi _ _ := (runs_guest h).2.issued i hi

/-! ### Every other step leads to it -/

omit [DecidableEq Tid] in
/-- When only the handler has a reference, dropping it destroys the flow. -/
theorem Owned.release_last (h : Owned st) {s : Fin kSlots} {a : Nat}
    (hheld : st.parser.held = some (s, a)) (halone : ¬st.HeldByThread a) :
    (st.heap.release a).get a = none := by
  have hreleased : Owned { st with heap := st.heap.release a, parser := .returned s false } :=
    h.release hheld rfl fun _ hx => nomatch hx
  by_contra hsome
  have halive := (hreleased.alive_iff a).mp (Option.isSome_iff_ne_none.mpr hsome)
  rcases halive with hthread | ⟨s', hs'⟩
  · exact halone hthread
  · cases hs'

/-- The handler drops the only reference. -/
theorem step_release_last (h : Owned st) (hrunning : st.terminated = false) {s : Fin kSlots}
    {a : Nat} {final : Bool} (hparser : st.parser = .called s a final)
    (halone : ¬st.HeldByThread a) : step st .release
      = some { st with heap := st.heap.release a, parser := .destroying s a final } := by
  have hlast := h.release_last (s := s) (a := a) (by rw [hparser]; rfl) halone
  simp [step, hrunning, hparser, hlast]

omit [DecidableEq Tid] in
/-- A handler that has a reference to a flow nobody else has one to goes on to destroy it. -/
private theorem not_destroyedByRequesters {s : Fin kSlots} {a : Nat} {final : Bool}
    (hparser : st.parser = .destroying s a final) : ¬DestroyedByRequesters st := by
  intro h
  have hdestroys := h.undestroyed
  rw [hparser] at hdestroys
  cases hdestroys

/-- The same from the moment that the flow is locked. -/
theorem destroyed_by_parser_of_alone (h : Owned st) (hrunning : st.terminated = false)
    {s : Fin kSlots} {a : Nat} (hheld : st.parser.held = some (s, a))
    (halone : ¬st.HeldByThread a) :
    ∃ as st', Runs step anyAction st as st' ∧ ¬DestroyedByRequesters st' := by
  cases hparser : st.parser with
  | called s' b final =>
    rw [hparser] at hheld
    cases hheld
    have hrelease := step_release_last h hrunning hparser halone
    exact ⟨[.release], _, .single trivial hrelease, not_destroyedByRequesters rfl⟩
  | locked s' b chunk final =>
    rw [hparser] at hheld
    cases hheld
    have hcall : step st .call = some { st with
        heap := st.heap.modify a fun flow => { flow with response := flow.response ++ chunk }
        parser := .called s a final
        finals := if final then st.finals ++ [a] else st.finals } := by
      simp [step, hrunning, hparser]
    have hrelease := step_release_last (step_owned h hcall) hrunning rfl halone
    exact ⟨[.call] ++ [.release], _, (Runs.single trivial hcall).append (.single trivial hrelease),
      not_destroyedByRequesters rfl⟩
  | idle =>
    rw [hparser] at hheld
    cases hheld
  | destroying s' b final =>
    rw [hparser] at hheld
    cases hheld
  | returned s' final =>
    rw [hparser] at hheld
    cases hheld

/-- When a thread drops its reference while the handler has one to the same flow, the handler
    goes on to destroy the flow. -/
theorem destroyed_by_parser_of_drop (howned : Owned st) (hstep : step st (.drop t) = some st')
    (hnot : ¬DropsAlone st (.drop t)) :
    ∃ as st'', Runs step anyAction st' as st'' ∧ ¬DestroyedByRequesters st'' := by
  have hrunning := running_of_step hstep
  simp only [DropsAlone, not_forall, not_not] at hnot
  obtain ⟨⟨s, a⟩, hthread, ⟨s', a'⟩, hparser, heq⟩ := hnot
  obtain rfl : a = a' := heq
  have hdropped : st'.parser = st.parser ∧ st'.terminated = st.terminated ∧
      ∃ p, p.held = none ∧ ∃ heap, st' = { st with heap := heap }.goto t p := by
    cases step_did hstep with
    | command haction _ _ _ _ =>
      rcases haction with haction | ⟨_, haction⟩ <;> cases haction
    | drop _ _ => exact ⟨rfl, rfl, _, rfl, _, rfl⟩
    | dropLast _ _ => exact ⟨rfl, rfl, _, rfl, _, rfl⟩
  obtain ⟨hsame, hterminated, p, hp, heap, hst'⟩ := hdropped
  refine destroyed_by_parser_of_alone (step_owned howned hstep) (hterminated.trans hrunning)
    (hsame ▸ hparser) ?_
  rw [hst', heldByThread_goto]
  rintro (⟨s₁, hs₁⟩ | ⟨u, s₁, hut, hu⟩)
  · rw [hp] at hs₁
    cases hs₁
  · exact hut (howned.unique u t s₁ s a hu hthread)

end Steps

/-- A request whose response is in time, and whose thread leaves after the handler. -/
theorem prompt_request_destroyed_by_requester :
    ∃ st, Runs step DropsAlone (Threads.initial Unit)
        (oneRequest ()) st ∧ DestroyedByRequesters st :=
  ⟨_, runs_checked_get (by decide), runs_destroyed_by_requesters (runs_checked_get (by decide))⟩

/-- **The parser destroys a flow** when the time-out of its thread falls into the handler of a
    line. -/
theorem parser_destroys : ∃ as st, Runs step anyAction (Threads.initial Unit) as st ∧
    ¬DestroyedByRequesters st := by
  refine ⟨requestUpToWait () ++ [.line slot0 [] true, .timeout (), .drop (), .call, .release,
    .destroyOnParser .timeout], _, runs_get (by decide), ?_⟩
  intro h
  have hissued := h.issued ⟨none, 0, .httpDestroy slot0, .timeout⟩ (by decide) slot0 rfl
  exact hissued rfl

end Http

end RtCharger.Devices
