import RtCharger.Devices.HttpOwnership
import Mathlib.Data.Fintype.Basic

namespace RtCharger.Devices

open Effect SharedHeap StepSystem RtCharger.Kernel RtCharger.Net RtCharger.Utilities

/-!
# The sessions of a slot

A session of the modem begins with `AT+HTTPCREATE` and ends with `AT+HTTPDESTROY`, and the
commands in between have to be those of its flow.

* `bracket` — the automaton that reads the commands naming one slot;
* `WellBracketed` — it accepts the commands of every slot, and every slot has one live flow at
  most;
* `PicksAlone` — a slot is picked only while no other thread is about to make or to store a flow
  for it, and no destructor of a flow of it is still to run its command;
* `Sessions` — the session of a slot is that of the flow somebody works on, which is what the
  automaton has read;
* `Passes`, `Ends` — a reference is dropped, and a destructor has run its command;
* `Sessions.quiet`, `pick`, `create`, `uncreated`, `store`, `command`, `lock`, `pass`, `destroy` —
  the kinds of steps keep it.
-/

namespace Http

variable {Tid : Type} {st st' : Threads Tid}

/-! ### Brackets -/

/-- The slot that a command names. -/
def AtCommand.slot : AtCommand → Fin kSlots
  | .httpCreate s _ | .httpCon s | .httpSend s _ _ _ | .httpDestroy s => s

/-- The session of slot `s`, named by its flow, after one more command: a session may begin when
    there is none, and every other command has to be of the flow of the session.  A creation
    that fails begins none. -/
def bracket (s : Fin kSlots) (current : Option Nat) (i : Issued Tid) : Option (Option Nat) :=
  if i.cmd.slot ≠ s then some current
  else
    match i.cmd with
    | .httpCreate _ _ =>
      if current = none then some (if i.result = .ok then some i.flow else none) else none
    | .httpDestroy _ => if current = some i.flow then some none else none
    | _ => if current = some i.flow then some current else none

/-- The sessions of every slot are well bracketed, and at most one live flow uses it. -/
structure WellBracketed (st : Threads Tid) : Prop where
  sole : ∀ a b flow flow', st.heap.get a = some flow → st.heap.get b = some flow' →
    flow.slot = flow'.slot → a = b
  accepted : ∀ s, (run (bracket s) none st.issued).isSome = true

theorem bracket_other {s : Fin kSlots} {i : Issued Tid} (hne : i.cmd.slot ≠ s)
    (current : Option Nat) : bracket s current i = some current := if_pos hne

theorem bracket_create {s : Fin kSlots} (thread : Option Tid) (a : Nat) (host : Text)
    (result : RtErr) : bracket s none ⟨thread, a, .httpCreate s host, result⟩
      = some (if result = .ok then some a else none) := by
  simp [bracket, AtCommand.slot]

theorem bracket_body {s : Fin kSlots} {cmd : AtCommand} (hcmd : BodyCommand s cmd)
    (thread : Option Tid) (a : Nat) (result : RtErr) :
    bracket s (some a) ⟨thread, a, cmd, result⟩ = some (some a) := by
  rcases hcmd with rfl | ⟨method, size, path, rfl⟩
  · simp [bracket, AtCommand.slot]
  · simp [bracket, AtCommand.slot]

theorem bracket_destroy {s : Fin kSlots} (thread : Option Tid) (a : Nat) (result : RtErr) :
    bracket s (some a) ⟨thread, a, .httpDestroy s, result⟩ = some none := by
  simp [bracket, AtCommand.slot]

/-! ### Who is in a session -/

/-- What a thread, or the parser, has a reference to. -/
def Threads.heldBy (st : Threads Tid) : Option Tid → Option (Fin kSlots × Nat)
  | some t => (st.pc t).held
  | none   => st.parser.held

/-- Whose destructor it is in. -/
def Threads.destroyedBy (st : Threads Tid) : Option Tid → Option (Fin kSlots × Nat)
  | some t => (st.pc t).destroys
  | none   => st.parser.destroys

/-- The session of the flow in the slot has begun and not ended. -/
def Threads.InSession (st : Threads Tid) (s : Fin kSlots) (a : Nat) : Prop :=
  ∃ u, st.heldBy u = some (s, a) ∨ st.destroyedBy u = some (s, a)

theorem heldBy_held {u : Option Tid} {s : Fin kSlots} {a : Nat} (h : st.heldBy u = some (s, a)) :
    st.HeldByThread a ∨ st.HeldByParser a := by
  cases u with
  | some t => exact Or.inl ⟨t, s, h⟩
  | none   => exact Or.inr ⟨s, h⟩

/-- Nobody has a reference to a flow and is in a destructor. -/
theorem destroyedBy_of_heldBy {u : Option Tid} {x : Fin kSlots × Nat} (h : st.heldBy u = some x) :
    st.destroyedBy u = none := by
  cases u with
  | some t =>
    have hheld : (st.pc t).held = some x := h
    show (st.pc t).destroys = none
    cases hpc : st.pc t with
    | destroying s a =>
      rw [hpc] at hheld
      cases hheld
    | _ => rfl
  | none =>
    have hheld : st.parser.held = some x := h
    show st.parser.destroys = none
    cases hparser : st.parser with
    | destroying s a final =>
      rw [hparser] at hheld
      cases hheld
    | _ => rfl

/-- Whoever has a reference finds the flow, with its slot. -/
theorem Owned.get_of_heldBy (h : Owned st) {u : Option Tid} {s : Fin kSlots} {a : Nat}
    (hu : st.heldBy u = some (s, a)) : ∃ flow, st.heap.get a = some flow ∧ flow.slot = s := by
  obtain ⟨flow, hflow⟩ := h.exists_get (heldBy_held hu)
  cases u with
  | some t => exact ⟨flow, hflow, h.slot t s a flow hu hflow⟩
  | none   => exact ⟨flow, hflow, h.parser_slot s a flow hu hflow⟩

/-- A live flow is held by somebody, in its slot. -/
theorem Owned.heldBy_of_get (h : Owned st) {a : Nat} {flow : Flow}
    (hflow : st.heap.get a = some flow) : ∃ u, st.heldBy u = some (flow.slot, a) := by
  have halive : (st.heap.get a).isSome = true := by rw [hflow]; rfl
  rcases (h.alive_iff a).mp halive with ⟨t, s, ht⟩ | ⟨s, hs⟩
  · obtain rfl := h.slot t s a flow ht hflow
    exact ⟨some t, ht⟩
  · obtain rfl := h.parser_slot s a flow hs hflow
    exact ⟨none, hs⟩

/-- In a destructor the flow is gone. -/
theorem Owned.get_of_destroyedBy (h : Owned st) {u : Option Tid} {s : Fin kSlots} {a : Nat}
    (hu : st.destroyedBy u = some (s, a)) : st.heap.get a = none := by
  cases u with
  | some t => exact (h.dead t s a hu).1
  | none   => exact (h.parser_dead s a hu).1

/-- A thread has picked the slot, or made a flow for it that is not stored yet, or the destructor
    of a flow of the slot has not run its command yet. -/
def Threads.Busy (st : Threads Tid) (s : Fin kSlots) : Prop :=
  (∃ t, (st.pc t).claims s = true) ∨ ∃ u a, st.destroyedBy u = some (s, a)

/-- A slot is picked only when it is not busy. -/
def PicksAlone (st : Threads Tid) : Action Tid → Prop
  | .pick _ => ∀ s, st.live.getNext = .returned s → ¬st.Busy s
  | _       => True

theorem busy_iff (st : Threads Tid) (s : Fin kSlots) : st.Busy s ↔
    (∃ t, (st.pc t).claims s = true) ∨ (∃ t, (st.pc t).destroys.map Prod.fst = some s) ∨
      st.parser.destroys.map Prod.fst = some s := by
  refine or_congr_right ?_
  constructor
  · rintro ⟨u, a, hu⟩
    cases u with
    | some t => exact Or.inl ⟨t, by rw [show (st.pc t).destroys = some (s, a) from hu]; rfl⟩
    | none   => exact Or.inr (by rw [show st.parser.destroys = some (s, a) from hu]; rfl)
  · rintro (⟨t, ht⟩ | hp)
    · obtain ⟨⟨s', a⟩, ha, rfl⟩ := Option.map_eq_some_iff.mp ht
      exact ⟨some t, a, ha⟩
    · obtain ⟨⟨s', a⟩, ha, rfl⟩ := Option.map_eq_some_iff.mp hp
      exact ⟨none, a, ha⟩

instance [Fintype Tid] (st : Threads Tid) (s : Fin kSlots) : Decidable (st.Busy s) :=
  decidable_of_iff _ (busy_iff st s).symm

instance [Fintype Tid] (st : Threads Tid) : (action : Action Tid) → Decidable (PicksAlone st action)
  | .pick _ => inferInstanceAs (Decidable (∀ s, st.live.getNext = .returned s → ¬st.Busy s))
  | .refuse _ | .create .. | .store _ | .connect .. | .send .. | .fail _ | .wait _ | .timeout _ |
    .drop _ | .destroy .. | .line .. | .call | .release | .destroyOnParser _ | .raise =>
    isTrue trivial

/-- The commands that name the slot are accepted, and its session is that of the flow somebody
    works on. -/
def Threads.Current (st : Threads Tid) (s : Fin kSlots) : Prop :=
  ∃ current, run (bracket s) none st.issued = some current ∧
    ∀ a, current = some a ↔ st.InSession s a

/-- The session of a slot is that of the flow somebody works on; a slot that is picked has none;
    and flows that may be found through a slot are those of its session. -/
structure Sessions (st : Threads Tid) : Prop where
  current : ∀ s, st.Current s
  picked : ∀ t s, st.pc t = .picked s → ∀ a, ¬st.InSession s a
  picked_unique : ∀ t u s, st.pc t = .picked s → st.pc u = .picked s → t = u
  destructor : ∀ u v s s' a, st.destroyedBy u = some (s, a) → st.destroyedBy v = some (s', a) →
    u = v
  stored : ∀ t stage s a, st.pc t = .holding stage s a → stage ≠ .created → st.slots s = some a
  locked : ∀ s a, st.parser.held = some (s, a) → st.slots s = some a

theorem initial_sessions (Tid : Type) : Sessions (Threads.initial Tid) where
  current s := by
    refine ⟨none, rfl, fun a => ?_⟩
    constructor
    · intro h
      cases h
    · rintro ⟨u, h | h⟩
      · cases u <;> cases h
      · cases u <;> cases h
  picked _ _ h := nomatch h
  picked_unique _ _ _ h _ := nomatch h
  destructor u v s s' a h _ := by
    cases u <;> cases h
  stored _ _ _ _ h _ := nomatch h
  locked _ _ h := nomatch h

/-- A slot has one session. -/
theorem Sessions.unique (h : Sessions st) {s : Fin kSlots} {a b : Nat} (ha : st.InSession s a)
    (hb : st.InSession s b) : a = b := by
  obtain ⟨current, _, hcurrent⟩ := h.current s
  have hca := (hcurrent a).mpr ha
  have hcb := (hcurrent b).mpr hb
  rw [hca] at hcb
  exact Option.some.inj hcb

/-- **Sessions are well bracketed.** -/
theorem Sessions.wellBracketed (h : Sessions st) (howned : Owned st) : WellBracketed st where
  sole a b flow flow' ha hb hslot := by
    obtain ⟨u, hu⟩ := howned.heldBy_of_get ha
    obtain ⟨v, hv⟩ := howned.heldBy_of_get hb
    rw [← hslot] at hv
    exact h.unique ⟨u, Or.inl hu⟩ ⟨v, Or.inl hv⟩
  accepted s := by
    obtain ⟨current, hrun, _⟩ := h.current s
    rw [hrun]
    rfl

/-! ### Sessions that go on, begin and end -/

/-- Nothing is issued. -/
theorem Threads.Current.same {s : Fin kSlots} (h : st.Current s)
    (hissued : st'.issued = st.issued) (hsession : ∀ a, st'.InSession s a ↔ st.InSession s a) :
    st'.Current s := by
  obtain ⟨current, hrun, hcurrent⟩ := h
  refine ⟨current, ?_, fun a => (hcurrent a).trans (hsession a).symm⟩
  rw [hissued]
  exact hrun

/-- A command is issued. -/
theorem Threads.Current.snoc {s : Fin kSlots} (h : st.Current s) {i : Issued Tid}
    (hissued : st'.issued = st.issued ++ [i])
    (hnext : ∀ current, (∀ a, current = some a ↔ st.InSession s a) →
      ∃ current', bracket s current i = some current' ∧
        ∀ a, current' = some a ↔ st'.InSession s a) : st'.Current s := by
  obtain ⟨current, hrun, hcurrent⟩ := h
  obtain ⟨current', hbracket, hcurrent'⟩ := hnext current hcurrent
  refine ⟨current', ?_, hcurrent'⟩
  rw [hissued, run_snoc hrun, hbracket]

/-- A command of another slot is issued. -/
theorem Threads.Current.other {s : Fin kSlots} (h : st.Current s) {i : Issued Tid}
    (hissued : st'.issued = st.issued ++ [i]) (hslot : i.cmd.slot ≠ s)
    (hsession : ∀ a, st'.InSession s a ↔ st.InSession s a) : st'.Current s := by
  refine h.snoc hissued fun current hcurrent => ⟨current, bracket_other hslot current, fun a => ?_⟩
  exact (hcurrent a).trans (hsession a).symm

/-- With the same references and destructors the sessions are the same. -/
theorem inSession_congr (hheld : ∀ u, st'.heldBy u = st.heldBy u)
    (hdestroyed : ∀ u, st'.destroyedBy u = st.destroyedBy u) (s : Fin kSlots) (a : Nat) :
    st'.InSession s a ↔ st.InSession s a := by
  simp only [Threads.InSession, hheld, hdestroyed]

/-- A thread stays where it is, or goes on in the body of `send` with its flow. -/
def Pc.Advances (p p' : Pc) : Prop :=
  p' = p ∨ ∃ stage stage' s a, p = .holding stage s a ∧ p' = .holding stage' s a ∧
    stage ≠ .created ∧ stage' ≠ .created

/-- Threads go on in their bodies, and the parser keeps what it has. -/
structure Quiet (st st' : Threads Tid) : Prop where
  pc : ∀ u, (st.pc u).Advances (st'.pc u)
  slots : st'.slots = st.slots
  held : st'.parser.held = st.parser.held
  destroys : st'.parser.destroys = st.parser.destroys

theorem Quiet.refl (st : Threads Tid) : Quiet st st := ⟨fun _ => Or.inl rfl, rfl, rfl, rfl⟩

theorem quiet_handler {p : ParserPc} (hheld : p.held = st.parser.held)
    (hdestroys : p.destroys = st.parser.destroys) : Quiet st { st with parser := p } :=
  ⟨fun _ => Or.inl rfl, rfl, hheld, hdestroys⟩

theorem Quiet.trans {st'' : Threads Tid} (h : Quiet st st') (h' : Quiet st' st'') :
    Quiet st st'' where
  pc u := by
    rcases h'.pc u with hsame | ⟨stage', stage'', s, a, hpc', hpc'', hstage', hstage''⟩
    · rw [hsame]
      exact h.pc u
    · rcases h.pc u with hsame | ⟨stage, stage₁, s₁, b, hpc, hpc₁, hstage, _⟩
      · exact Or.inr ⟨stage', stage'', s, a, hsame ▸ hpc', hpc'', hstage', hstage''⟩
      · rw [hpc₁] at hpc'
        cases hpc'
        exact Or.inr ⟨stage, stage'', s, a, hpc, hpc'', hstage, hstage''⟩
  slots := h'.slots.trans h.slots
  held := h'.held.trans h.held
  destroys := h'.destroys.trans h.destroys

theorem Quiet.heldBy (h : Quiet st st') (u : Option Tid) : st'.heldBy u = st.heldBy u := by
  cases u with
  | none => exact h.held
  | some t =>
    show (st'.pc t).held = (st.pc t).held
    rcases h.pc t with hsame | ⟨stage, stage', s, a, hpc, hpc', _, _⟩
    · rw [hsame]
    · rw [hpc, hpc']
      rfl

theorem Quiet.destroyedBy (h : Quiet st st') (u : Option Tid) :
    st'.destroyedBy u = st.destroyedBy u := by
  cases u with
  | none => exact h.destroys
  | some t =>
    show (st'.pc t).destroys = (st.pc t).destroys
    rcases h.pc t with hsame | ⟨stage, stage', s, a, hpc, hpc', _, _⟩
    · rw [hsame]
    · rw [hpc, hpc']
      rfl

theorem Quiet.inSession (h : Quiet st st') (s : Fin kSlots) (a : Nat) :
    st'.InSession s a ↔ st.InSession s a :=
  inSession_congr h.heldBy h.destroyedBy s a

theorem Quiet.picked (h : Quiet st st') {t : Tid} {s : Fin kSlots} (ht : st'.pc t = .picked s) :
    st.pc t = .picked s := by
  rcases h.pc t with hsame | ⟨stage, stage', s', a, _, hpc', _, _⟩
  · rw [← hsame, ht]
  · rw [hpc'] at ht
    cases ht

/-- Steps in the bodies. -/
theorem Sessions.quiet (h : Sessions st) (hq : Quiet st st') (hcurrent : ∀ s, st'.Current s) :
    Sessions st' where
  current := hcurrent
  picked t s ht a := by
    rw [hq.inSession]
    exact h.picked t s (hq.picked ht) a
  picked_unique t u s ht hu := h.picked_unique t u s (hq.picked ht) (hq.picked hu)
  destructor u v s s' a hu hv := by
    rw [hq.destroyedBy] at hu hv
    exact h.destructor u v s s' a hu hv
  stored t stage s a ht hstage := by
    rw [hq.slots]
    rcases hq.pc t with hsame | ⟨stage₀, stage', s', b, hpc, hpc', hstage₀, _⟩
    · rw [hsame] at ht
      exact h.stored t stage s a ht hstage
    · rw [hpc'] at ht
      cases ht
      exact h.stored t stage₀ s a hpc hstage₀
  locked s a hs := by
    rw [hq.slots]
    rw [hq.held] at hs
    exact h.locked s a hs

/-- Steps in the bodies that issue nothing. -/
theorem Sessions.silent (h : Sessions st) (hq : Quiet st st') (hissued : st'.issued = st.issued) :
    Sessions st' :=
  h.quiet hq fun s => (h.current s).same hissued (hq.inSession s)

/-- A slot that a thread has picked has no session that a command could belong to. -/
theorem Sessions.current_none (h : Sessions st) {t : Tid} {s : Fin kSlots} (hpc : st.pc t = .picked s)
    {current : Option Nat} (hcurrent : ∀ a, current = some a ↔ st.InSession s a) :
    current = none := by
  cases current with
  | none   => rfl
  | some a => exact absurd ((hcurrent a).mp rfl) (h.picked t s hpc a)

/-- `u₀` drops its reference: it was the last one, and the destructor begins, or somebody else has
    another one. -/
structure Passes (st st' : Threads Tid) (u₀ : Option Tid) (s : Fin kSlots) (a : Nat) : Prop where
  held : st.heldBy u₀ = some (s, a)
  self : st'.heldBy u₀ = none
  last : st'.destroyedBy u₀ = some (s, a) ∨
    (st'.destroyedBy u₀ = none ∧ ∃ v, v ≠ u₀ ∧ st.heldBy v = some (s, a))
  heldBy : ∀ u, u ≠ u₀ → st'.heldBy u = st.heldBy u
  destroyedBy : ∀ u, u ≠ u₀ → st'.destroyedBy u = st.destroyedBy u

section Passes

variable {u₀ : Option Tid} {s : Fin kSlots} {a : Nat}

/-- Then every flow is in session that was in session. -/
theorem Passes.inSession (hp : Passes st st' u₀ s a) (s' : Fin kSlots) (b : Nat) :
    st'.InSession s' b ↔ st.InSession s' b := by
  constructor
  · rintro ⟨u, hu⟩
    by_cases hu₀ : u = u₀
    · subst hu₀
      rcases hu with hu | hu
      · rw [hp.self] at hu
        cases hu
      · rcases hp.last with hlast | ⟨hlast, _⟩
        · rw [hlast] at hu
          cases hu
          exact ⟨u, Or.inl hp.held⟩
        · rw [hlast] at hu
          cases hu
    · rw [hp.heldBy u hu₀, hp.destroyedBy u hu₀] at hu
      exact ⟨u, hu⟩
  · rintro ⟨u, hu⟩
    by_cases hu₀ : u = u₀
    · subst hu₀
      rcases hu with hu | hu
      · rw [hp.held] at hu
        cases hu
        rcases hp.last with hlast | ⟨_, v, hv, hvheld⟩
        · exact ⟨u, Or.inr hlast⟩
        · exact ⟨v, Or.inl (by rw [hp.heldBy v hv, hvheld])⟩
      · rw [destroyedBy_of_heldBy hp.held] at hu
        cases hu
    · refine ⟨u, ?_⟩
      rw [hp.heldBy u hu₀, hp.destroyedBy u hu₀]
      exact hu

/-- Nobody else is in the destructor of the flow. -/
theorem Passes.destructor (hp : Passes st st' u₀ s a) (howned : Owned st) {u : Option Tid}
    {s' s'' : Fin kSlots} {b : Nat} (hu₀ : st'.destroyedBy u₀ = some (s'', b)) (hne : u ≠ u₀) :
    st'.destroyedBy u ≠ some (s', b) := by
  intro hu
  rcases hp.last with hlast | ⟨hlast, _⟩
  · rw [hlast] at hu₀
    cases hu₀
    obtain ⟨flow, hflow, _⟩ := howned.get_of_heldBy hp.held
    rw [hp.destroyedBy u hne] at hu
    rw [howned.get_of_destroyedBy hu] at hflow
    cases hflow
  · rw [hlast] at hu₀
    cases hu₀

/-- The sessions go on, if the threads have no new flow. -/
theorem Sessions.pass (h : Sessions st) (howned : Owned st) (hp : Passes st st' u₀ s a)
    (hissued : st'.issued = st.issued) (hslots : st'.slots = st.slots)
    (hpicked : ∀ t s, st'.pc t = .picked s → st.pc t = .picked s)
    (hstored : ∀ t stage s b, st'.pc t = .holding stage s b → st.pc t = .holding stage s b) :
    Sessions st' := by
  refine ⟨fun s' => (h.current s').same hissued (hp.inSession s'), ?_, ?_, ?_, ?_, ?_⟩
  · intro t s' ht b
    rw [hp.inSession]
    exact h.picked t s' (hpicked t s' ht) b
  · intro t u s' ht hu
    exact h.picked_unique t u s' (hpicked t s' ht) (hpicked u s' hu)
  · intro u v s₁ s₂ b hu hv
    by_cases hu₀ : u = u₀
    · by_cases hv₀ : v = u₀
      · rw [hu₀, hv₀]
      · rw [hu₀] at hu
        exact absurd hv (hp.destructor howned hu hv₀)
    · by_cases hv₀ : v = u₀
      · rw [hv₀] at hv
        -- the destructor that begins is that of a flow which lived until now
        exact absurd hu (hp.destructor howned hv hu₀)
      · rw [hp.destroyedBy u hu₀] at hu
        rw [hp.destroyedBy v hv₀] at hv
        exact h.destructor u v s₁ s₂ b hu hv
  · intro t stage s' b ht hstage
    rw [hslots]
    exact h.stored t stage s' b (hstored t stage s' b ht) hstage
  · intro s' b hb
    rw [hslots]
    by_cases hu₀ : none = u₀
    · subst hu₀
      exact absurd (hp.self.symm.trans hb) (by simp)
    · exact h.locked s' b ((hp.heldBy none hu₀).symm.trans hb)

end Passes

/-- The destructor that `u₀` is in has run its command. -/
structure Ends (st st' : Threads Tid) (u₀ : Option Tid) (s : Fin kSlots) (a : Nat) : Prop where
  destroyed : st.destroyedBy u₀ = some (s, a)
  self : st'.destroyedBy u₀ = none
  heldBy : ∀ u, st'.heldBy u = st.heldBy u
  destroyedBy : ∀ u, u ≠ u₀ → st'.destroyedBy u = st.destroyedBy u

section Ends

variable {u₀ : Option Tid} {s : Fin kSlots} {a : Nat}

/-- Whoever is in a destructor then was in it before. -/
theorem Ends.destroyedBy_of (he : Ends st st' u₀ s a) {u : Option Tid} {x : Fin kSlots × Nat}
    (hu : st'.destroyedBy u = some x) : st.destroyedBy u = some x := by
  by_cases hne : u = u₀
  · rw [hne, he.self] at hu
    cases hu
  · rw [← he.destroyedBy u hne]
    exact hu

/-- The session of its slot has ended, and no other one. -/
theorem Ends.inSession (he : Ends st st' u₀ s a) (h : Sessions st) (howned : Owned st)
    (s' : Fin kSlots) (b : Nat) : st'.InSession s' b ↔ s' ≠ s ∧ st.InSession s' b := by
  have hdestroyed := he.destroyed
  constructor
  · rintro ⟨u, hu⟩
    rw [he.heldBy] at hu
    have hne : u ≠ u₀ := by
      rintro rfl
      rcases hu with hu | hu
      · rw [destroyedBy_of_heldBy hu] at hdestroyed
        cases hdestroyed
      · rw [he.self] at hu
        cases hu
    rw [he.destroyedBy u hne] at hu
    refine ⟨?_, u, hu⟩
    rintro rfl
    -- the session of the slot is that of `a`, which nobody but `u₀` is in any more
    obtain rfl := h.unique ⟨u, hu⟩ ⟨u₀, Or.inr hdestroyed⟩
    rcases hu with hu | hu
    · obtain ⟨flow, hflow, _⟩ := howned.get_of_heldBy hu
      rw [howned.get_of_destroyedBy hdestroyed] at hflow
      cases hflow
    · exact hne (h.destructor u u₀ s' s' b hu hdestroyed)
  · rintro ⟨hs, u, hu⟩
    have hne : u ≠ u₀ := by
      rintro rfl
      rcases hu with hu | hu
      · rw [destroyedBy_of_heldBy hu] at hdestroyed
        cases hdestroyed
      · rw [hdestroyed] at hu
        cases hu
        exact hs rfl
    refine ⟨u, ?_⟩
    rw [he.heldBy, he.destroyedBy u hne]
    exact hu

/-- A session ends. -/
theorem Sessions.destroy (h : Sessions st) (howned : Owned st) (he : Ends st st' u₀ s a)
    {result : RtErr} (hissued : st'.issued = st.issued ++ [⟨u₀, a, .httpDestroy s, result⟩])
    (hslots : st'.slots = st.slots) (hpicked : ∀ t s, st'.pc t = .picked s → st.pc t = .picked s)
    (hstored : ∀ t stage s b, st'.pc t = .holding stage s b → st.pc t = .holding stage s b) :
    Sessions st' := by
  refine ⟨?_, ?_, ?_, ?_, ?_, ?_⟩
  · intro s'
    by_cases hs : s' = s
    · subst hs
      refine (h.current s').snoc hissued fun current hcurrent => ?_
      rw [(hcurrent a).mpr ⟨u₀, Or.inr he.destroyed⟩, bracket_destroy]
      refine ⟨none, rfl, fun b => ?_⟩
      rw [he.inSession h howned]
      simp
    · refine (h.current s').other hissued (fun heq => hs heq.symm) fun b => ?_
      rw [he.inSession h howned]
      exact and_iff_right hs
  · intro t s' ht b hb
    exact h.picked t s' (hpicked t s' ht) b ((he.inSession h howned s' b).mp hb).2
  · intro t u s' ht hu
    exact h.picked_unique t u s' (hpicked t s' ht) (hpicked u s' hu)
  · intro u v s₁ s₂ b hu hv
    exact h.destructor u v s₁ s₂ b (he.destroyedBy_of hu) (he.destroyedBy_of hv)
  · intro t stage s' b ht hstage
    rw [hslots]
    exact h.stored t stage s' b (hstored t stage s' b ht) hstage
  · intro s' b hb
    rw [hslots]
    exact h.locked s' b ((he.heldBy none).symm.trans hb)

end Ends

/-- The handler drops its reference. -/
theorem passes_handler {s : Fin kSlots} {a : Nat} {heap : Heap Flow} {p : ParserPc}
    (hheld : st.parser.held = some (s, a)) (hp : p.held = none)
    (hlast : p.destroys = some (s, a) ∨
      (p.destroys = none ∧ ∃ t : Tid, (st.pc t).held = some (s, a))) :
    Passes st { st with heap := heap, parser := p } none s a := by
  refine ⟨hheld, hp, hlast.imp_right fun ⟨hnone, t, ht⟩ => ⟨hnone, some t, nofun, ht⟩, ?_, ?_⟩
  · intro u hu
    cases u with
    | none   => exact absurd rfl hu
    | some u => rfl
  · intro u hu
    cases u with
    | none   => exact absurd rfl hu
    | some u => rfl

/-- The handler locks the flow of a slot, which is that of its session. -/
theorem Sessions.lock (h : Sessions st) (howned : Owned st) {s : Fin kSlots} {a : Nat}
    {flow : Flow} {heap : Heap Flow} {p : ParserPc} (hparser : st.parser = .idle)
    (hslot : st.slots s = some a) (hget : st.heap.get a = some flow)
    (hp : p.held = some (s, a)) (hdestroys : p.destroys = none) :
    Sessions { st with heap := heap, parser := p } := by
  have hmine : st.InSession s a := by
    obtain ⟨u, hu⟩ := howned.heldBy_of_get hget
    rw [howned.weak_slot s a flow hslot hget] at hu
    exact ⟨u, Or.inl hu⟩
  have hdestroyedBy : ∀ u, ({ st with heap := heap, parser := p } : Threads Tid).destroyedBy u
      = st.destroyedBy u := by
    intro u
    cases u with
    | some t => rfl
    | none   =>
      show p.destroys = st.parser.destroys
      rw [hdestroys, hparser]
      rfl
  have hsession : ∀ s' b, ({ st with heap := heap, parser := p } : Threads Tid).InSession s' b ↔
      st.InSession s' b := by
    intro s' b
    constructor
    · rintro ⟨u, hu⟩
      rw [hdestroyedBy] at hu
      cases u with
      | some t => exact ⟨some t, hu⟩
      | none   =>
        rcases hu with hu | hu
        · have hself : p.held = some (s', b) := hu
          rw [hp] at hself
          cases hself
          exact hmine
        · exact ⟨none, Or.inr hu⟩
    · rintro ⟨u, hu⟩
      refine ⟨u, ?_⟩
      rw [hdestroyedBy]
      cases u with
      | some t => exact hu
      | none   =>
        rcases hu with hu | hu
        · have hidle : st.parser.held = some (s', b) := hu
          rw [hparser] at hidle
          cases hidle
        · exact Or.inr hu
  refine ⟨fun s' => (h.current s').same rfl (hsession s'), ?_, h.picked_unique, ?_, h.stored, ?_⟩
  · intro t s' ht b
    rw [hsession]
    exact h.picked t s' ht b
  · intro u v s₁ s₂ b hu hv
    rw [hdestroyedBy] at hu hv
    exact h.destructor u v s₁ s₂ b hu hv
  · intro s' b hb
    have hself : p.held = some (s', b) := hb
    rw [hp] at hself
    cases hself
    exact hslot

section Goto

variable [DecidableEq Tid] {t : Tid}

/-- A thread goes on in its body. -/
theorem quiet_goto {stage : Stage} (stage' : Stage) {s : Fin kSlots} {a : Nat}
    (hpc : st.pc t = .holding stage s a) (hstage : stage ≠ .created) (hstage' : stage' ≠ .created) :
    Quiet st (st.goto t (.holding stage' s a)) where
  pc u := by
    by_cases hu : u = t
    · rw [hu, goto_pc_self]
      exact Or.inr ⟨stage, stage', s, a, hpc, rfl, hstage, hstage'⟩
    · exact Or.inl (goto_pc_of_ne hu ..)
  slots := rfl
  held := rfl
  destroys := rfl

theorem heldBy_goto {p : Pc} (hp : p.held = (st.pc t).held) (u : Option Tid) :
    (st.goto t p).heldBy u = st.heldBy u := by
  cases u with
  | none => rfl
  | some u =>
    show ((st.goto t p).pc u).held = (st.pc u).held
    by_cases hu : u = t
    · rw [hu, goto_pc_self, hp]
    · rw [goto_pc_of_ne hu]

theorem destroyedBy_goto {p : Pc} (hp : p.destroys = (st.pc t).destroys) (u : Option Tid) :
    (st.goto t p).destroyedBy u = st.destroyedBy u := by
  cases u with
  | none => rfl
  | some u =>
    show ((st.goto t p).pc u).destroys = (st.pc u).destroys
    by_cases hu : u = t
    · rw [hu, goto_pc_self, hp]
    · rw [goto_pc_of_ne hu]

/-- Who is in a session after a thread without one has gone on. -/
theorem inSession_goto {p : Pc} {s : Fin kSlots} {a : Nat} (hheld : (st.pc t).held = none)
    (hdestroys : (st.pc t).destroys = none) :
    (st.goto t p).InSession s a ↔
      (p.held = some (s, a) ∨ p.destroys = some (s, a)) ∨ st.InSession s a := by
  constructor
  · rintro ⟨u, hu⟩
    by_cases hut : u = some t
    · subst hut
      have hself : p.held = some (s, a) ∨ p.destroys = some (s, a) := by
        have hpc : (st.goto t p).pc t = p := goto_pc_self ..
        simpa [Threads.heldBy, Threads.destroyedBy, hpc] using hu
      exact Or.inl hself
    · refine Or.inr ⟨u, ?_⟩
      cases u with
      | none => exact hu
      | some u =>
        have hne : u ≠ t := fun h => hut (by rw [h])
        simpa [Threads.heldBy, Threads.destroyedBy, goto_pc_of_ne hne] using hu
  · rintro (hself | ⟨u, hu⟩)
    · refine ⟨some t, ?_⟩
      have hpc : (st.goto t p).pc t = p := goto_pc_self ..
      simpa [Threads.heldBy, Threads.destroyedBy, hpc] using hself
    · refine ⟨u, ?_⟩
      cases u with
      | none => exact hu
      | some u =>
        have hne : u ≠ t := by
          rintro rfl
          rcases hu with hu | hu
          · exact absurd (hheld.symm.trans hu) (by simp)
          · exact absurd (hdestroys.symm.trans hu) (by simp)
        simpa [Threads.heldBy, Threads.destroyedBy, goto_pc_of_ne hne] using hu

theorem complete_quiet (st : Threads Tid) (t : Tid) : Quiet st (st.complete t) := by
  unfold Threads.complete
  split
  · rename_i s a hpc
    have h := quiet_goto .leaving hpc (by decide) (by decide)
    exact ⟨h.pc, h.slots, h.held, h.destroys⟩
  · exact .refl st

theorem completeAll_quiet (st : Threads Tid) (ws : List (Waiter Tid)) :
    Quiet st (st.completeAll ws) := by
  induction ws generalizing st with
  | nil => exact .refl st
  | cons w ws ih => exact (complete_quiet st w.thread).trans (ih _)

/-! ### Every step -/

/-- A thread that has no flow goes on to a place where it has none either. -/
theorem Sessions.goto_idle (h : Sessions st) {p : Pc} (hheld : (st.pc t).held = none)
    (hdestroys : (st.pc t).destroys = none) (hp : p.held = none) (hp' : p.destroys = none)
    (hpicked : ∀ s, p = .picked s → (∀ a, ¬st.InSession s a) ∧ ∀ u, st.pc u ≠ .picked s) :
    Sessions (st.goto t p) := by
  have hheldBy := heldBy_goto (hp.trans hheld.symm)
  have hdestroyedBy := destroyedBy_goto (hp'.trans hdestroys.symm)
  have hsession := inSession_congr hheldBy hdestroyedBy
  refine ⟨fun s => (h.current s).same rfl (hsession s), ?_, ?_, ?_, ?_, h.locked⟩
  · intro u s hu a
    rw [hsession]
    by_cases hut : u = t
    · rw [hut, goto_pc_self] at hu
      exact (hpicked s hu).1 a
    · rw [goto_pc_of_ne hut] at hu
      exact h.picked u s hu a
  · intro u v s
    refine unique_goto (P := (· = .picked s)) (fun u v => h.picked_unique u v s) fun u hs hu => ?_
    exact absurd hu ((hpicked s hs).2 u)
  · intro u v s s' a hu hv
    rw [hdestroyedBy] at hu hv
    exact h.destructor u v s s' a hu hv
  · intro u stage s a hu hstage
    by_cases hut : u = t
    · rw [hut, goto_pc_self] at hu
      rw [hu] at hp
      cases hp
    · rw [goto_pc_of_ne hut] at hu
      exact h.stored u stage s a hu hstage

/-- A slot that is picked while it is not busy has no session. -/
theorem Sessions.pick (h : Sessions st) (howned : Owned st) {s : Fin kSlots}
    (hpc : st.pc t = .idle) (hnext : st.live.getNext = .returned s) (hfree : ¬st.Busy s) :
    Sessions (st.goto t (.picked s)) := by
  have hexpired : ∀ a flow, st.slots s = some a → st.heap.get a ≠ some flow := by
    intro a flow hslot hflow
    have hnone := LimitedSlots.getNext_returned hnext
    rw [Threads.live, hslot, Option.bind_some, hflow] at hnone
    cases hnone
  refine h.goto_idle (by rw [hpc]; rfl) (by rw [hpc]; rfl) rfl rfl ?_
  intro s' hs'
  cases hs'
  refine ⟨?_, ?_⟩
  · rintro a ⟨u, hu | hu⟩
    · obtain ⟨flow, hflow, _⟩ := howned.get_of_heldBy hu
      cases u with
      | none => exact hexpired a flow (h.locked s a hu) hflow
      | some u =>
        cases hpcu : st.pc u with
        | holding stage s' b =>
          have hheld : (st.pc u).held = some (s, a) := hu
          rw [hpcu] at hheld
          cases hheld
          -- a flow that is not stored yet keeps the slot busy, and a stored one unexpired
          by_cases hstage : stage = .created
          · subst hstage
            exact hfree (Or.inl ⟨u, by rw [hpcu]; simp [Pc.claims]⟩)
          · exact hexpired a flow (h.stored u stage s a hpcu hstage) hflow
        | _ =>
          have hheld : (st.pc u).held = some (s, a) := hu
          rw [hpcu] at hheld
          cases hheld
    · exact hfree (Or.inr ⟨u, a, hu⟩)
  · intro u hu
    exact hfree (Or.inl ⟨u, by rw [hu]; simp [Pc.claims]⟩)

/-- A session begins. -/
theorem Sessions.create (h : Sessions st) {s : Fin kSlots} {url : UrlResolver}
    (hpc : st.pc t = .picked s) :
    Sessions ({ st.record (some t) st.heap.next (.httpCreate s url.host) .ok with
      heap := st.heap.make ⟨s, url.host, url.path, []⟩ }.goto t
        (.holding .created s st.heap.next)) := by
  let st₁ : Threads Tid := { st.record (some t) st.heap.next (.httpCreate s url.host) .ok with
    heap := st.heap.make ⟨s, url.host, url.path, []⟩ }
  have hheld : (st₁.pc t).held = none := by
    show (st.pc t).held = none
    rw [hpc]
    rfl
  have hdestroys : (st₁.pc t).destroys = none := by
    show (st.pc t).destroys = none
    rw [hpc]
    rfl
  have hsession : ∀ s' a, (st₁.goto t (.holding .created s st.heap.next)).InSession s' a ↔
      (s' = s ∧ a = st.heap.next) ∨ st.InSession s' a := by
    intro s' a
    refine (inSession_goto hheld hdestroys).trans (or_congr_left ?_)
    simp only [Pc.held, Pc.destroys, Option.some.injEq, Prod.mk.injEq, reduceCtorEq, or_false]
    exact and_congr eq_comm eq_comm
  refine ⟨?_, ?_, ?_, ?_, ?_, h.locked⟩
  · intro s'
    by_cases hs : s' = s
    · subst hs
      refine (h.current s').snoc rfl fun current hcurrent => ?_
      -- the slot was picked, so that the session before is nobody's
      rw [h.current_none hpc hcurrent, bracket_create]
      refine ⟨_, rfl, fun a => ?_⟩
      rw [hsession]
      simp only [if_true, Option.some.injEq, true_and]
      constructor
      · intro ha
        exact Or.inl ha.symm
      · rintro (ha | ha)
        · exact ha.symm
        · exact absurd ha (h.picked t s' hpc a)
    · refine (h.current s').other rfl (fun heq => hs heq.symm) fun a => ?_
      rw [hsession]
      exact or_iff_right fun ha => hs ha.1
  · intro u s' hu a
    rw [hsession]
    by_cases hut : u = t
    · rw [hut, goto_pc_self] at hu
      cases hu
    · rw [goto_pc_of_ne hut] at hu
      rintro (⟨rfl, _⟩ | ha)
      · exact hut (h.picked_unique u t s' hu hpc)
      · exact h.picked u s' hu a ha
  · intro u v s' hu hv
    refine unique_goto (P := (· = .picked s')) (fun u v => h.picked_unique u v s') ?_ hu hv
    intro u hs
    cases hs
  · intro u v s₁ s₂ a hu hv
    have hsame : Pc.destroys (.holding .created s st.heap.next) = (st₁.pc t).destroys :=
      hdestroys.symm
    rw [destroyedBy_goto hsame] at hu hv
    exact h.destructor u v s₁ s₂ a hu hv
  · intro u stage s' a hu hstage
    by_cases hut : u = t
    · rw [hut, goto_pc_self] at hu
      cases hu
      exact absurd rfl hstage
    · rw [goto_pc_of_ne hut] at hu
      exact h.stored u stage s' a hu hstage

/-- A creation that fails begins none. -/
theorem Sessions.uncreated (h : Sessions st) {s : Fin kSlots} {url : UrlResolver}
    {result : RtErr} (hpc : st.pc t = .picked s) (hresult : result ≠ .ok) (heap : Heap Flow) :
    Sessions ({ st.record (some t) st.heap.next (.httpCreate s url.host) result with
      heap := heap }.goto t .idle) := by
  have hrecorded : Sessions { st.record (some t) st.heap.next (.httpCreate s url.host) result with
      heap := heap } := by
    refine ⟨?_, h.picked, h.picked_unique, h.destructor, h.stored, h.locked⟩
    intro s'
    by_cases hs : s' = s
    · subst hs
      refine (h.current s').snoc rfl fun current hcurrent => ?_
      rw [h.current_none hpc hcurrent, bracket_create, if_neg hresult]
      refine ⟨none, rfl, fun a => ?_⟩
      rw [← h.current_none hpc hcurrent]
      exact hcurrent a
    · exact (h.current s').other rfl (fun heq => hs heq.symm) fun a => Iff.rfl
  refine hrecorded.goto_idle ?_ ?_ rfl rfl fun _ hs => nomatch hs
  · show (st.pc t).held = none
    rw [hpc]
    rfl
  · show (st.pc t).destroys = none
    rw [hpc]
    rfl

/-- A flow is stored in its slot. -/
theorem Sessions.store (h : Sessions st) {s : Fin kSlots} {a : Nat}
    (hpc : st.pc t = .holding .created s a) :
    Sessions ({ st with slots := Function.update st.slots s (some a) }.goto t
      (.holding .stored s a)) := by
  let st₁ : Threads Tid := { st with slots := Function.update st.slots s (some a) }
  have hmine : st.InSession s a := ⟨some t, Or.inl (by
    show (st.pc t).held = _
    rw [hpc]
    rfl)⟩
  have hheldBy : ∀ u, (st₁.goto t (.holding .stored s a)).heldBy u = st₁.heldBy u := by
    refine heldBy_goto ?_
    show _ = (st.pc t).held
    rw [hpc]
    rfl
  have hdestroyedBy : ∀ u, (st₁.goto t (.holding .stored s a)).destroyedBy u = st₁.destroyedBy u := by
    refine destroyedBy_goto ?_
    show _ = (st.pc t).destroys
    rw [hpc]
    rfl
  have hsession := inSession_congr hheldBy hdestroyedBy
  -- the slot had no other session whose flow it would stop to refer to
  have hslots : ∀ s' b, st.InSession s' b → st.slots s' = some b →
      Function.update st.slots s (some a) s' = some b := by
    intro s' b hb hslot
    by_cases hs : s' = s
    · rw [hs] at hb
      rw [hs, Function.update_self, h.unique hmine hb]
    · rw [Function.update_of_ne hs, hslot]
  refine ⟨fun s' => (h.current s').same rfl (hsession s'), ?_, ?_, ?_, ?_, ?_⟩
  · intro u s' hu b
    rw [hsession]
    by_cases hut : u = t
    · rw [hut, goto_pc_self] at hu
      cases hu
    · rw [goto_pc_of_ne hut] at hu
      exact h.picked u s' hu b
  · intro u v s' hu hv
    refine unique_goto (P := (· = .picked s')) (fun u v => h.picked_unique u v s') ?_ hu hv
    intro u hs
    cases hs
  · intro u v s₁ s₂ b hu hv
    rw [hdestroyedBy] at hu hv
    exact h.destructor u v s₁ s₂ b hu hv
  · intro u stage s' b hu hstage
    by_cases hut : u = t
    · rw [hut, goto_pc_self] at hu
      cases hu
      exact Function.update_self ..
    · rw [goto_pc_of_ne hut] at hu
      refine hslots s' b ⟨some u, Or.inl ?_⟩ (h.stored u stage s' b hu hstage)
      show (st.pc u).held = _
      rw [hu]
      rfl
  · intro s' b hb
    exact hslots s' b ⟨none, Or.inl hb⟩ (h.locked s' b hb)

/-- A command of a body is of the session of its flow. -/
theorem Sessions.command (h : Sessions st) {stage stage' : Stage} {s : Fin kSlots} {a : Nat}
    {cmd : AtCommand} {result : RtErr} (hpc : st.pc t = .holding stage s a)
    (hcmd : BodyCommand s cmd) (hstage : stage ≠ .created) (hstage' : stage' ≠ .created) :
    Sessions ((st.record (some t) a cmd result).goto t (.holding stage' s a)) := by
  have hquiet : Quiet st ((st.record (some t) a cmd result).goto t (.holding stage' s a)) := by
    have h := quiet_goto stage' hpc hstage hstage'
    exact ⟨h.pc, h.slots, h.held, h.destroys⟩
  have hmine : st.InSession s a := ⟨some t, Or.inl (by
    show (st.pc t).held = _
    rw [hpc]
    rfl)⟩
  refine h.quiet hquiet fun s' => ?_
  by_cases hs : s' = s
  · subst hs
    refine (h.current s').snoc rfl fun current hcurrent => ?_
    -- the session of the slot is that of the thread's own flow
    rw [(hcurrent a).mpr hmine, bracket_body hcmd]
    refine ⟨_, rfl, fun b => ?_⟩
    rw [hquiet.inSession, ← hcurrent b, (hcurrent a).mpr hmine]
  · refine (h.current s').other rfl ?_ (hquiet.inSession s')
    rcases hcmd with rfl | ⟨_, _, _, rfl⟩
    · exact fun heq => hs heq.symm
    · exact fun heq => hs heq.symm

/-- A thread that drops its reference goes on without a flow. -/
theorem Sessions.drop (h : Sessions st) (howned : Owned st) {s : Fin kSlots} {a : Nat} {p : Pc}
    (hpc : st.pc t = .holding .leaving s a) (hp : p.held = none)
    (hlast : p.destroys = some (s, a) ∨
      (p.destroys = none ∧ ∃ v, v ≠ some t ∧ st.heldBy v = some (s, a)))
    (hidle : ∀ s', p ≠ .picked s') :
    Sessions ({ st with heap := st.heap.release a }.goto t p) := by
  have hheld : st.heldBy (some t) = some (s, a) := by
    show (st.pc t).held = _
    rw [hpc]
    rfl
  have hself : ({ st with heap := st.heap.release a }.goto t p).pc t = p := goto_pc_self ..
  have hother : ∀ u, some u ≠ some t →
      ({ st with heap := st.heap.release a }.goto t p).pc u = st.pc u :=
    fun u hu => goto_pc_of_ne (fun h => hu (by rw [h])) ..
  have hpass : Passes st ({ st with heap := st.heap.release a }.goto t p) (some t) s a := by
    refine ⟨hheld, (congrArg Pc.held hself).trans hp, ?_, ?_, ?_⟩
    · have hdestroys : ({ st with heap := st.heap.release a }.goto t p).destroyedBy (some t)
          = p.destroys := congrArg Pc.destroys hself
      rw [hdestroys]
      exact hlast
    · intro u hu
      cases u with
      | none   => rfl
      | some u => exact congrArg Pc.held (hother u hu)
    · intro u hu
      cases u with
      | none   => rfl
      | some u => exact congrArg Pc.destroys (hother u hu)
  refine h.pass howned hpass rfl rfl ?_ ?_
  · intro u s' hu
    by_cases hut : u = t
    · rw [hut, hself] at hu
      exact absurd hu (hidle s')
    · rwa [goto_pc_of_ne hut] at hu
  · intro u stage s' b hu
    by_cases hut : u = t
    · rw [hut, hself] at hu
      rw [hu] at hp
      cases hp
    · rwa [goto_pc_of_ne hut] at hu

end Goto

end Http

end RtCharger.Devices
