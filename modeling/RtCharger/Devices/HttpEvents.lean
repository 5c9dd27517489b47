import RtCharger.Devices.HttpOwnership
import Mathlib.Data.Fintype.Basic

namespace RtCharger.Devices

open Effect OneHot SharedHeap StepSystem RtCharger.Kernel RtCharger.Net RtCharger.Os
open RtCharger.Utilities

/-!
# Whose event releases a request

The event of a slot outlives the flows of the slot: whatever is left of it when a flow is made
releases the wait of this flow.

* `OwnFinals` — a wait returns only after a line with flag zero was handled for its own flow;
* `PicksFresh` — a slot is picked only while no other thread is about to store a flow in it, its
  event is clear, and no handler is about to set it;
* `Fresh` — then the event of a slot, set or about to be, is that of its flow;
* `Fresh.goto`, `Fresh.event`, `Fresh.parser` — the kinds of steps keep this;
* `runs_ownFinals` — and so does every run;
* `completed_early_of_pick` — a slot that is picked with its event set leads to a wait that
  returns early;
* `completed_without_final` — a second line with flag zero is enough for it.
-/

namespace Http

variable {Tid : Type} {st st' : Threads Tid}

/-- Whenever a wait has returned, a line with flag zero had been handled for the flow. -/
def OwnFinals (st : Threads Tid) : Prop := ∀ a ∈ st.completed, a ∈ st.finals

/-- The parser is in the handler of a line of the slot with flag zero. -/
def ParserPc.signals (s : Fin kSlots) : ParserPc → Bool
  | .locked s' _ _ final | .called s' _ final | .destroying s' _ final | .returned s' final =>
    decide (s' = s) && final
  | .idle => false

/-- The same after its callback. -/
def ParserPc.pending (s : Fin kSlots) : ParserPc → Bool
  | .called s' _ final | .destroying s' _ final | .returned s' final => decide (s' = s) && final
  | _ => false

/-- A slot is picked only while nobody else claims it, its event is clear and no handler is
    about to set it. -/
def PicksFresh (st : Threads Tid) : Action Tid → Prop
  | .pick _ => ∀ s, st.live.getNext = .returned s → (∀ u, (st.pc u).claims s = false) ∧
      st.event.isSet (doneBit s) = false ∧ st.parser.signals s = false
  | _ => True

instance [Fintype Tid] (st : Threads Tid) : (action : Action Tid) → Decidable (PicksFresh st action)
  | .pick _ => inferInstanceAs (Decidable (∀ s, st.live.getNext = .returned s →
      (∀ u, (st.pc u).claims s = false) ∧ st.event.isSet (doneBit s) = false ∧
        st.parser.signals s = false))
  | .refuse _ | .create .. | .store _ | .connect .. | .send .. | .fail _ | .wait _ | .timeout _ |
    .drop _ | .destroy .. | .line .. | .call | .release | .destroyOnParser _ | .raise =>
    isTrue trivial

/-! ### The invariant -/

/-- The flow that the thread has stored in its slot. -/
def Pc.stored : Pc → Option (Fin kSlots × Nat)
  | .holding .created _ _ => none
  | .holding _ s a        => some (s, a)
  | _                     => none

/-- The weak reference of the slot is expired. -/
def Threads.Expired (st : Threads Tid) (s : Fin kSlots) : Prop :=
  ∀ a, st.slots s = some a → st.heap.get a = none

/-- What holds wherever a thread is: the slot that it claims is expired, and the event of this slot
    is clear and stays so; the slot of the flow that it has stored refers to the flow, and if the
    event of this slot is set, or about to be, then because of the flow. -/
structure Threads.Admits (st : Threads Tid) (p : Pc) : Prop where
  claimed : ∀ s, p.claims s = true → st.Expired s ∧
    st.event.isSet (doneBit s) = false ∧ st.parser.signals s = false
  stored : ∀ s a, p.stored = some (s, a) → st.slots s = some a
  answered : ∀ s a, p.stored = some (s, a) →
    st.event.isSet (doneBit s) = true ∨ st.parser.pending s = true → a ∈ st.finals

/-- Every thread on the list of the event is in the wait for the response in its slot, whose event
    is clear, and every event that is set, or about to be, is that of the flow of its slot. -/
structure Fresh (st : Threads Tid) : Prop where
  nodup : (st.event.object.suspendThread.map Waiter.thread).Nodup
  blocked : ∀ x ∈ st.event.object.suspendThread, ∃ s a,
    st.pc x.thread = .holding .waiting s a ∧ x.OnBit (doneBit s) ∧
      st.event.isSet (doneBit s) = false
  place : ∀ t, st.Admits (st.pc t)
  claims_unique : ∀ t u s, (st.pc t).claims s = true → (st.pc u).claims s = true → t = u
  locked : ∀ s a, st.parser.held = some (s, a) → st.slots s = some a
  completed : OwnFinals st

/-- A thread that has neither picked a slot nor stored a flow can be anywhere. -/
theorem admits_of_none {p : Pc} (hclaims : ∀ s, p.claims s = false) (hstored : p.stored = none) :
    st.Admits p where
  claimed s hs := by
    rw [hclaims s] at hs
    cases hs
  stored s a hs := by
    rw [hstored] at hs
    cases hs
  answered s a hs := by
    rw [hstored] at hs
    cases hs

theorem initial_fresh (Tid : Type) : Fresh (Threads.initial Tid) where
  nodup := List.nodup_nil
  blocked _ hx := nomatch hx
  place _ := admits_of_none (fun _ => rfl) rfl
  claims_unique _ _ _ h _ := nomatch h
  locked _ _ h := nomatch h
  completed _ h := nomatch h

/-- The slots have events of their own. -/
theorem doneBit_inj {s s' : Fin kSlots} (h : doneBit s = doneBit s') : s = s' := by
  have hval : (doneBit s).val = (doneBit s').val := congrArg Fin.val h
  exact Fin.ext hval

/-- A signal that is about to be given is one of the handler. -/
theorem ParserPc.signals_of_pending {p : ParserPc} {s : Fin kSlots} (h : p.pending s = true) :
    p.signals s = true := by
  cases p with
  | idle => cases h
  | locked s' a chunk final => cases h
  | _ => exact h

/-- Nobody on the list waits for an event that is set. -/
theorem Fresh.allBlocked (h : Fresh st) :
    AllBlocked st.event.object.set st.event.object.suspendThread := by
  intro x hx
  obtain ⟨s, a, _, hon, hclear⟩ := h.blocked x hx
  exact ⟨doneBit s, hon, hclear⟩

/-- A thread that is somewhere else is not on the list of the event. -/
theorem Fresh.unsuspended (h : Fresh st) {t : Tid} {p : Pc} (hpc : st.pc t = p)
    (hp : ∀ s a, p ≠ .holding .waiting s a) :
    t ∉ st.event.object.suspendThread.map Waiter.thread := by
  intro hmem
  obtain ⟨x, hx, rfl⟩ := List.mem_map.mp hmem
  obtain ⟨s, a, hwaiting, _⟩ := h.blocked x hx
  exact hp s a (hpc.symm.trans hwaiting)

/-- While a slot is claimed, no flow is stored in it. -/
theorem Fresh.unstored (h : Fresh st) (howned : Owned st) {t : Tid} {s : Fin kSlots}
    (hclaims : (st.pc t).claims s = true) {a : Nat} (hslot : st.slots s = some a) :
    ¬(st.HeldByThread a ∨ st.HeldByParser a) := by
  intro hheld
  obtain ⟨flow, hflow⟩ := howned.exists_get hheld
  rw [((h.place t).claimed s hclaims).1 a hslot] at hflow
  cases hflow

theorem Pc.held_of_stored {p : Pc} {x : Fin kSlots × Nat} (h : p.stored = some x) :
    p.held = some x := by
  unfold Pc.stored at h
  split at h
  · cases h
  · exact h
  · cases h

/-! ### Steps that leave the event alone -/

/-- The heap changes, and what is dead stays dead. -/
theorem Fresh.heap (h : Fresh st) {heap : Heap Flow}
    (hdead : ∀ s a, st.slots s = some a → st.heap.get a = none → heap.get a = none) :
    Fresh { st with heap := heap } where
  nodup := h.nodup
  blocked := h.blocked
  place t := by
    refine ⟨fun s hs => ?_, (h.place t).stored, (h.place t).answered⟩
    obtain ⟨hexpired, hrest⟩ := (h.place t).claimed s hs
    exact ⟨fun a ha => hdead s a ha (hexpired a ha), hrest⟩
  claims_unique := h.claims_unique
  locked := h.locked
  completed := h.completed

/-- A command is issued. -/
theorem Fresh.issued (h : Fresh st) (issued : List (Issued Tid)) (terminated : Bool) :
    Fresh { st with issued := issued, terminated := terminated } where
  nodup := h.nodup
  blocked := h.blocked
  place t := ⟨(h.place t).claimed, (h.place t).stored, (h.place t).answered⟩
  claims_unique := h.claims_unique
  locked := h.locked
  completed := h.completed

/-- The parser goes on, without a new signal. -/
theorem Fresh.parser (h : Fresh st) {p : ParserPc}
    (hheld : ∀ x, p.held = some x → st.parser.held = some x)
    (hsignals : ∀ s, p.signals s = true → st.parser.signals s = true)
    (hpending : ∀ s, p.pending s = true → st.parser.pending s = true) :
    Fresh { st with parser := p } where
  nodup := h.nodup
  blocked := h.blocked
  place t := by
    refine ⟨fun s hs => ?_, (h.place t).stored, fun s a hs hor => ?_⟩
    · obtain ⟨hexpired, hclear, hparser⟩ := (h.place t).claimed s hs
      refine ⟨hexpired, hclear, ?_⟩
      by_contra hsignal
      rw [hsignals s (by simpa using hsignal)] at hparser
      cases hparser
    · exact (h.place t).answered s a hs (hor.imp_right (hpending s))
  claims_unique := h.claims_unique
  locked s a hs := h.locked s a (hheld _ hs)
  completed := h.completed

/-- A slot that nobody claims, and whose flow nobody has a reference to, gets another flow. -/
theorem Fresh.assign (h : Fresh st) {s : Fin kSlots} {a : Nat}
    (hfree : ∀ u, (st.pc u).claims s = false)
    (hempty : ∀ b, st.slots s = some b → ¬(st.HeldByThread b ∨ st.HeldByParser b)) :
    Fresh { st with slots := Function.update st.slots s (some a) } := by
  have hkeeps : ∀ {s' b}, st.slots s' = some b → st.HeldByThread b ∨ st.HeldByParser b →
      Function.update st.slots s (some a) s' = some b := by
    intro s' b hslot hheld
    have hne : s' ≠ s := by
      rintro rfl
      exact hempty b hslot hheld
    exact (Function.update_of_ne hne ..).trans hslot
  refine ⟨h.nodup, h.blocked, fun u => ⟨fun s' hs' => ?_, fun s' b hs' => ?_,
    (h.place u).answered⟩, h.claims_unique, fun s' b hs' => ?_, h.completed⟩
  · obtain ⟨hexpired, hrest⟩ := (h.place u).claimed s' hs'
    refine ⟨fun b hb => ?_, hrest⟩
    rcases stored_cases hb with ⟨rfl, _⟩ | hb
    · have hclaims : (st.pc u).claims s' = true := hs'
      rw [hfree u] at hclaims
      cases hclaims
    · exact hexpired b hb
  · exact hkeeps ((h.place u).stored s' b hs') (Or.inl ⟨u, s', Pc.held_of_stored hs'⟩)
  · exact hkeeps (h.locked s' b hs') (Or.inr ⟨s', hs'⟩)

/-- The parser has nothing to do. -/
theorem Fresh.unparsed (h : Fresh st) : Fresh { st with parser := .idle } :=
  h.parser nofun nofun nofun

/-- The handler locks the flow of its slot, which nobody claims therefore. -/
theorem Fresh.lock (h : Fresh st) {s : Fin kSlots} {a : Nat} {flow : Flow}
    (hslot : st.slots s = some a) (hget : st.heap.get a = some flow) (chunk : List UInt8)
    (final : Bool) : Fresh { st with parser := .locked s a chunk final } where
  nodup := h.nodup
  blocked := h.blocked
  place t := by
    refine ⟨fun s' hs' => ?_, (h.place t).stored, fun s' b hs' hor => ?_⟩
    · obtain ⟨hexpired, hclear, _⟩ := (h.place t).claimed s' hs'
      -- the slot of the line is not expired
      have hne : s ≠ s' := by
        rintro rfl
        rw [hexpired a hslot] at hget
        cases hget
      refine ⟨hexpired, hclear, ?_⟩
      show (decide (s = s') && final) = false
      rw [decide_eq_false hne, Bool.false_and]
    · exact (h.place t).answered s' b hs' (hor.imp_right fun hpending => nomatch hpending)
  claims_unique := h.claims_unique
  locked s' b hs' := by
    cases hs'
    exact hslot
  completed := h.completed

/-- The callback: if the flag of the line is zero, then this is a line of the flow of the slot. -/
theorem Fresh.call (h : Fresh st) {s : Fin kSlots} {a : Nat} {chunk : List UInt8} {final : Bool}
    (hparser : st.parser = .locked s a chunk final) :
    Fresh { st with
      parser := .called s a final
      finals := if final then st.finals ++ [a] else st.finals } := by
  have hgrows : ∀ {b}, b ∈ st.finals → b ∈ if final then st.finals ++ [a] else st.finals := by
    intro b hb
    cases final with
    | true  => exact List.mem_append_left _ hb
    | false => exact hb
  have hsignals : ∀ s', st.parser.signals s' = (decide (s = s') && final) := by
    intro s'
    rw [hparser]
    rfl
  have hslot : st.slots s = some a := h.locked s a (by rw [hparser]; rfl)
  refine ⟨h.nodup, h.blocked, fun t => ?_, h.claims_unique, ?_, fun b hb => hgrows (h.completed b hb)⟩
  · refine ⟨fun s' hs' => ?_, (h.place t).stored, fun s' b hs' hor => ?_⟩
    · obtain ⟨hexpired, hclear, hparser'⟩ := (h.place t).claimed s' hs'
      exact ⟨hexpired, hclear, (hsignals s').symm.trans hparser'⟩
    · rcases hor with hset | hpending
      · exact hgrows ((h.place t).answered s' b hs' (Or.inl hset))
      · have hand : (decide (s = s') && final) = true := hpending
        obtain ⟨hs, rfl⟩ := Bool.and_eq_true_iff.mp hand
        obtain rfl := of_decide_eq_true hs
        -- the flow that the thread has stored in the slot is the one that was locked
        have hsame : some b = some a := ((h.place t).stored s b hs').symm.trans hslot
        cases hsame
        exact List.mem_append_right _ (List.mem_singleton_self a)
  · intro s' b hs'
    cases hs'
    exact hslot

/-! ### Steps of the event -/

/-- Events are taken, threads leave the list, and the waits that return are those of flows with a
    line with flag zero. -/
theorem Fresh.event (h : Fresh st) {event : EventSet Tid} {completed : List Nat}
    (hset : ∀ b, event.isSet b = true → st.event.isSet b = true)
    (hlist : event.object.suspendThread.Sublist st.event.object.suspendThread)
    (hcompleted : ∀ a ∈ completed, a ∈ st.finals) :
    Fresh { st with event := event, completed := completed } := by
  have hclear : ∀ b, st.event.isSet b = false → event.isSet b = false := by
    intro b hb
    by_contra hnot
    rw [hset b (by simpa using hnot)] at hb
    cases hb
  refine ⟨h.nodup.sublist (hlist.map _), fun x hx => ?_, fun t => ?_, h.claims_unique, h.locked,
    hcompleted⟩
  · obtain ⟨s, a, hpc, hon, hbit⟩ := h.blocked x (hlist.subset hx)
    exact ⟨s, a, hpc, hon, hclear _ hbit⟩
  · refine ⟨fun s hs => ?_, (h.place t).stored, fun s a hs hor => ?_⟩
    · obtain ⟨hexpired, hbit, hparser⟩ := (h.place t).claimed s hs
      exact ⟨hexpired, hclear _ hbit, hparser⟩
    · exact (h.place t).answered s a hs (hor.imp_left (hset _))

/-- A thread that is in the wait joins the list. -/
theorem Fresh.suspend (h : Fresh st) {t : Tid} {s : Fin kSlots} {a : Nat}
    (hpc : st.pc t = .holding .waiting s a) (hbit : st.event.isSet (doneBit s) = false)
    (hwaits : t ∉ st.event.object.suspendThread.map Waiter.thread) :
    Fresh { st with event := st.event.suspend t (doneBit s) } where
  nodup := by
    show ((st.event.object.suspendThread ++ [_]).map Waiter.thread).Nodup
    rw [List.map_append]
    refine h.nodup.append (List.nodup_singleton t) ?_
    exact List.disjoint_singleton.mpr hwaits
  blocked x hx := by
    rcases List.mem_append.mp hx with hx | hx
    · exact h.blocked x hx
    · rw [List.mem_singleton] at hx
      subst hx
      exact ⟨s, a, hpc, ⟨rfl, rfl⟩, hbit⟩
  place u := ⟨(h.place u).claimed, (h.place u).stored, (h.place u).answered⟩
  claims_unique := h.claims_unique
  locked := h.locked
  completed := h.completed

/-- When the event of a slot is about to be set, then for the flow stored in it. -/
theorem Fresh.final (h : Fresh st) {s : Fin kSlots} (hpending : st.parser.pending s = true)
    {u : Tid} {a : Nat} (hstored : (st.pc u).stored = some (s, a)) : a ∈ st.finals :=
  (h.place u).answered s a hstored (Or.inr hpending)

/-- The handler sets the event of its slot, for which nobody is on the list. -/
theorem Fresh.mark (h : Fresh st) {s : Fin kSlots} (hpending : st.parser.pending s = true)
    (hnone : ∀ x ∈ st.event.object.suspendThread, x.eventSet ≠ oneHot (doneBit s))
    (raised : List (BitVec 32)) (resumed : List Tid) :
    Fresh { st with event := ⟨{ st.event.object with
      set := st.event.object.set ||| oneHot (doneBit s) }, raised, resumed⟩ } := by
  have hbit : ∀ c, bit (st.event.object.set ||| oneHot (doneBit s)) c
      = (st.event.isSet c || decide (c = doneBit s)) := by
    intro c
    rw [bit_or, bit_oneHot, EventSet.isSet]
  have hother : ∀ {s'}, s' ≠ s → st.event.isSet (doneBit s') = false →
      bit (st.event.object.set ||| oneHot (doneBit s)) (doneBit s') = false := by
    intro s' hne hclear
    rw [hbit, hclear, decide_eq_false fun heq => hne (doneBit_inj heq), Bool.or_false]
  refine ⟨h.nodup, fun x hx => ?_, fun u => ⟨fun s' hs' => ?_, (h.place u).stored,
    fun s' b hs' hor => ?_⟩, h.claims_unique, h.locked, h.completed⟩
  · obtain ⟨s', b, hpc, hon, hclear⟩ := h.blocked x hx
    have hne : s' ≠ s := by
      rintro rfl
      exact hnone x hx hon.2
    exact ⟨s', b, hpc, hon, hother hne hclear⟩
  · obtain ⟨hexpired, hclear, hsignals⟩ := (h.place u).claimed s' hs'
    -- the handler is in no line of a slot that is claimed
    have hne : s' ≠ s := by
      rintro rfl
      rw [ParserPc.signals_of_pending hpending] at hsignals
      cases hsignals
    exact ⟨hexpired, hother hne hclear, hsignals⟩
  · by_cases heq : s' = s
    · rw [heq] at hs'
      exact h.final hpending hs'
    · refine (h.place u).answered s' b hs' (hor.imp_left fun hset => ?_)
      by_contra hclear
      have hstill := hother heq (by simpa using hclear)
      exact absurd (hset.symm.trans hstill) (by decide)

/-! ### Steps of the threads -/

section Steps

variable [DecidableEq Tid] {t : Tid} {s : Fin kSlots} {a : Nat}

/-- A thread that is not on the list goes on to a place where it can be. -/
theorem Fresh.goto (h : Fresh st) {p : Pc} (hp : st.Admits p)
    (hunique : ∀ u s, p.claims s = true → (st.pc u).claims s = true → u = t)
    (hwaits : t ∉ st.event.object.suspendThread.map Waiter.thread) : Fresh (st.goto t p) where
  nodup := h.nodup
  blocked x hx := by
    obtain ⟨s, a, hpc, hrest⟩ := h.blocked x hx
    have hne : x.thread ≠ t := by
      rintro rfl
      exact hwaits (List.mem_map_of_mem hx)
    exact ⟨s, a, (goto_pc_of_ne hne ..).trans hpc, hrest⟩
  place u := by
    by_cases hut : u = t
    · rw [hut, goto_pc_self]
      exact ⟨hp.claimed, hp.stored, hp.answered⟩
    · rw [goto_pc_of_ne hut]
      exact ⟨(h.place u).claimed, (h.place u).stored, (h.place u).answered⟩
  claims_unique _ _ s hu hv :=
    unique_goto (P := fun q => q.claims s = true) (fun u v => h.claims_unique u v s)
      (fun u hs hu => hunique u s hs hu) hu hv
  locked := h.locked
  completed := h.completed

/-- A thread gives up what it has. -/
theorem Fresh.leave (h : Fresh st) {p : Pc} (hclaims : ∀ s, p.claims s = false)
    (hstored : p.stored = none) (hwaits : t ∉ st.event.object.suspendThread.map Waiter.thread) :
    Fresh (st.goto t p) := by
  refine h.goto (admits_of_none hclaims hstored) (fun u s' hs' _ => ?_) hwaits
  rw [hclaims s'] at hs'
  cases hs'

/-- A thread goes on with the flow that it has stored. -/
theorem Fresh.stage (h : Fresh st) {stage stage' : Stage} (hpc : st.pc t = .holding stage s a)
    (hstage : stage ≠ .created) (hstage' : stage' ≠ .created)
    (hwaits : t ∉ st.event.object.suspendThread.map Waiter.thread) :
    Fresh (st.goto t (.holding stage' s a)) := by
  have hstored : ∀ {stage : Stage}, stage ≠ .created → (Pc.holding stage s a).stored = some (s, a) := by
    intro stage hne
    cases stage with
    | created => exact absurd rfl hne
    | _ => rfl
  have hclaims : ∀ s', (Pc.holding stage' s a).claims s' = false := by
    intro s'
    cases stage' with
    | created => exact absurd rfl hstage'
    | _ => rfl
  have hhere : (st.pc t).stored = (Pc.holding stage' s a).stored := by
    rw [hpc, hstored hstage, hstored hstage']
  have hplace := h.place t
  refine h.goto ⟨fun s' hs' => ?_, ?_, ?_⟩ (fun u s' hs' _ => ?_) hwaits
  · rw [hclaims s'] at hs'
    cases hs'
  · rw [← hhere]
    exact hplace.stored
  · rw [← hhere]
    exact hplace.answered
  · rw [hclaims s'] at hs'
    cases hs'

/-- The thread that waits for the response in a slot is released. -/
theorem Fresh.wake (h : Fresh st) {ws₁ ws₂ : List (Waiter Tid)} {w : Waiter Tid}
    (hsplit : st.event.object.suspendThread = ws₁ ++ w :: ws₂)
    (hpc : st.pc w.thread = .holding .waiting s a) (ha : a ∈ st.finals)
    (raised : List (BitVec 32)) (resumed : List Tid) :
    Fresh ({ st with
      event := ⟨{ st.event.object with suspendThread := ws₁ ++ ws₂ }, raised, resumed⟩
      completed := st.completed ++ [a] }.goto w.thread (.holding .leaving s a)) := by
  have hreleased : Fresh { st with
      event := ⟨{ st.event.object with suspendThread := ws₁ ++ ws₂ }, raised, resumed⟩
      completed := st.completed ++ [a] } := by
    refine h.event (fun _ hset => hset) ?_ (List.forall_mem_append.mpr
      ⟨h.completed, List.forall_mem_singleton.mpr ha⟩)
    rw [hsplit]
    exact (List.Sublist.refl ws₁).append (List.sublist_cons_self w ws₂)
  have hwaits : w.thread ∉ (ws₁ ++ ws₂).map Waiter.thread := by
    have hnodup := h.nodup
    rw [hsplit, List.map_append, List.map_cons] at hnodup
    rw [List.map_append]
    exact (List.nodup_middle.mp hnodup).notMem
  exact hreleased.stage hpc (by decide) (by decide) hwaits

/-- A slot is picked. -/
theorem Fresh.pick (h : Fresh st) (hpc : st.pc t = .idle) (hnext : st.live.getNext = .returned s)
    (hok : PicksFresh st (.pick t)) : Fresh (st.goto t (.picked s)) := by
  obtain ⟨hfree, hclear, hparser⟩ := hok s hnext
  have hexpired : st.Expired s := by
    intro a hslot
    have hlive : (st.slots s).bind st.heap.get = none := LimitedSlots.getNext_returned hnext
    rwa [hslot, Option.bind_some] at hlive
  have hsame : ∀ {s'}, (Pc.picked s).claims s' = true → s' = s := by
    intro s' hs'
    exact (of_decide_eq_true hs').symm
  refine h.goto ⟨fun s' hs' => ?_, nofun, nofun⟩
    (fun u s' hs' hu => ?_) (h.unsuspended hpc nofun)
  · obtain rfl := hsame hs'
    exact ⟨hexpired, hclear, hparser⟩
  · obtain rfl := hsame hs'
    rw [hfree u] at hu
    cases hu

/-- A flow is made for the slot that was picked. -/
theorem Fresh.create (h : Fresh st) (howned : Owned st) (hpc : st.pc t = .picked s) (flow : Flow) :
    Fresh ({ st with heap := st.heap.make flow }.goto t (.holding .created s a)) := by
  have hmade : Fresh { st with heap := st.heap.make flow } := by
    refine h.heap fun s' b hslot hdead => ?_
    have hlt := howned.weak_lt s' b hslot
    exact (get_make_of_ne _ _ (Nat.ne_of_lt hlt)).trans hdead
  have hclaims : ∀ {s'}, (Pc.holding .created s a).claims s' = (st.pc t).claims s' := by
    intro s'
    rw [hpc]
    rfl
  refine hmade.goto ⟨fun s' hs' => ?_, nofun, nofun⟩
    (fun u s' hs' hu => ?_) (h.unsuspended hpc nofun)
  · exact (hmade.place t).claimed s' (hclaims.symm.trans hs')
  · exact h.claims_unique u t s' hu (hclaims.symm.trans hs')

/-- The flow is stored in the slot, where nothing is left of any other flow. -/
theorem Fresh.store (h : Fresh st) (howned : Owned st) (hpc : st.pc t = .holding .created s a) :
    Fresh ({ st with slots := Function.update st.slots s (some a) }.goto t
      (.holding .stored s a)) := by
  have hmine : (st.pc t).claims s = true := by
    rw [hpc]
    exact decide_eq_true rfl
  obtain ⟨_, hclear, hparser⟩ := (h.place t).claimed s hmine
  have hwaits := h.unsuspended hpc nofun
  -- nobody claims the slot while the thread is nowhere
  have hidle : Fresh (st.goto t .idle) := h.leave (fun _ => rfl) rfl hwaits
  have hfree : ∀ u, ((st.goto t .idle).pc u).claims s = false := by
    intro u
    by_cases hut : u = t
    · rw [hut, goto_pc_self]
      rfl
    · rw [goto_pc_of_ne hut]
      by_contra hclaims
      exact hut (h.claims_unique u t s (by simpa using hclaims) hmine)
  have hempty : ∀ b, (st.goto t .idle).slots s = some b →
      ¬((st.goto t .idle).HeldByThread b ∨ (st.goto t .idle).HeldByParser b) := by
    rintro b hslot (hthread | hheld)
    · rcases heldByThread_goto.mp hthread with ⟨s', hs'⟩ | ⟨u, s', _, hu⟩
      · cases hs'
      · exact h.unstored howned hmine hslot (Or.inl ⟨u, s', hu⟩)
    · exact h.unstored howned hmine hslot (Or.inr hheld)
  have hassigned := hidle.assign (a := a) hfree hempty
  have hstored := hassigned.goto (t := t) (p := .holding .stored s a)
    ⟨nofun, fun s' b hs' => ?_, fun s' b hs' hor => ?_⟩ nofun hwaits
  · have hback : { st.goto t .idle with slots := Function.update st.slots s (some a) }.goto t
        (.holding .stored s a)
        = { st with slots := Function.update st.slots s (some a) }.goto t (.holding .stored s a) := by
      simp [Threads.goto]
    exact hback ▸ hstored
  · cases hs'
    exact Function.update_self ..
  · cases hs'
    rcases hor with hset | hpending
    · have hset' : st.event.isSet (doneBit s) = true := hset
      rw [hclear] at hset'
      cases hset'
    · have hsignals : st.parser.signals s = true := ParserPc.signals_of_pending hpending
      rw [hparser] at hsignals
      cases hsignals

/-- The event is set after a line with flag zero: it stays set for the flow of its slot, or
    releases the wait of this flow. -/
theorem Fresh.raise (h : Fresh st) (hparser : st.parser = .returned s true) :
    Fresh ({ st with event := st.event.set (oneHot (doneBit s)), parser := .idle }.completeAll
      (rtEventSend st.event.object (oneHot (doneBit s))).2.2) := by
  have hpending : st.parser.pending s = true := by
    rw [hparser]
    exact Bool.and_eq_true_iff.mpr ⟨decide_eq_true rfl, rfl⟩
  obtain ⟨object, resumed, hsend, hsent⟩ := rtEventSend_oneHot (doneBit s) h.allBlocked
  rw [EventSet.set, hsend]
  cases hsent with
  | mark hnone => exact (h.mark hpending hnone _ _).unparsed
  | @wake ws₁ ws₂ w hsplit _ hw =>
    have hmem : w ∈ st.event.object.suspendThread := by
      rw [hsplit]
      exact List.mem_append_right _ List.mem_cons_self
    -- the thread that is resumed waits for the response in the slot of the line
    obtain ⟨s', b, hpc, hon, _⟩ := h.blocked w hmem
    obtain rfl : s' = s := doneBit_inj (oneHot_inj.mp (hon.2.symm.trans hw))
    have hb : b ∈ st.finals := h.final hpending (u := w.thread) (by rw [hpc]; rfl)
    have hwoken := h.unparsed.wake hsplit hpc hb (st.event.raised ++ [oneHot (doneBit s')])
      (st.event.resumed ++ [w].map Waiter.thread)
    simp only [Threads.completeAll, Threads.complete, hpc]
    exact hwoken

/-! ### Every run -/

/-- A step keeps the events those of the flows. -/
theorem step_fresh {action : Action Tid} (howned : Owned st) (h : Fresh st)
    (hok : PicksFresh st action) (hstep : step st action = some st') : Fresh st' := by
  have hrelease : ∀ a, Fresh { st with heap := st.heap.release a } := fun a =>
    h.heap fun _ _ _ hdead => get_release_eq_none hdead
  cases step_did hstep with
  | pick hpc hnext => exact h.pick hpc hnext hok
  | exhausted _ _ => exact h
  | refuse hpc =>
    exact h.leave (fun _ => rfl) rfl (h.unsuspended hpc nofun)
  | @create t s url hpc =>
    exact (h.create howned hpc ⟨s, url.host, url.path, []⟩).issued _ st.terminated
  | @uncreated t s url result hpc _ =>
    have hmade : Fresh { st with
        heap := (st.heap.make ⟨s, url.host, url.path, []⟩).release st.heap.next } := by
      refine h.heap fun s' b hslot hdead => get_release_eq_none ?_
      exact (get_make_of_ne _ _ (Nat.ne_of_lt (howned.weak_lt s' b hslot))).trans hdead
    have hleft := hmade.leave (t := t) (p := .idle) (fun _ => rfl) rfl
      (h.unsuspended hpc nofun)
    exact hleft.issued _ st.terminated
  | store hpc => exact h.store howned hpc
  | command _ hpc _ hstage hstage' =>
    refine (h.issued _ st.terminated).stage hpc ?_ ?_ (h.unsuspended hpc ?_)
    · rcases hstage with rfl | rfl <;> decide
    · rcases hstage' with rfl | rfl | rfl <;> decide
    · rcases hstage with rfl | rfl <;> exact nofun
  | fail hpc hstage =>
    refine h.stage hpc ?_ (by decide) (h.unsuspended hpc ?_)
    · rcases hstage with rfl | rfl | rfl <;> decide
    · rcases hstage with rfl | rfl | rfl <;> exact nofun
  | @received t s a hpc hbit =>
    have ha : a ∈ st.finals := (h.place t).answered s a (by rw [hpc]; rfl) (Or.inl hbit)
    have htaken : Fresh { st with
        event := st.event.take (doneBit s), completed := st.completed ++ [a] } := by
      refine h.event (fun c hc => ?_) (List.Sublist.refl _) (List.forall_mem_append.mpr
        ⟨h.completed, List.forall_mem_singleton.mpr ha⟩)
      have hand : bit (st.event.object.set &&& ~~~oneHot (doneBit s)) c = true := hc
      rw [bit_and, Bool.and_eq_true_iff] at hand
      exact hand.1
    exact htaken.stage hpc (by decide) (by decide) (h.unsuspended hpc nofun)
  | @suspended t s a hpc hbit =>
    have hwaits := h.unsuspended hpc nofun
    have hwaiting : Fresh (st.goto t (.holding .waiting s a)) :=
      h.stage hpc (by decide) (by decide) hwaits
    exact hwaiting.suspend (goto_pc_self ..) hbit hwaits
  | @timeout t s a object hpc hobject =>
    obtain ⟨_, rfl⟩ := rtThreadTimeout_some hobject
    have hfiltered : Fresh { st with event := { st.event with object := { st.event.object with
        suspendThread := st.event.object.suspendThread.filter fun w => decide (w.thread ≠ t) } } } :=
      h.event (fun _ hset => hset) List.filter_sublist h.completed
    -- the timer takes the thread off the list
    refine hfiltered.stage hpc (by decide) (by decide) fun hmem => ?_
    obtain ⟨w, hw, heq⟩ := List.mem_map.mp hmem
    exact of_decide_eq_true (List.mem_filter.mp hw).2 heq
  | @drop t s a hpc _ =>
    exact (hrelease a).leave (fun _ => rfl) rfl (h.unsuspended hpc nofun)
  | @dropLast t s a hpc _ =>
    exact (hrelease a).leave (fun _ => rfl) rfl (h.unsuspended hpc nofun)
  | destroy hpc =>
    exact (h.issued _ _).leave (fun _ => rfl) rfl (h.unsuspended hpc nofun)
  | @lock s a flow chunk final _ hslot hget =>
    exact (h.lock hslot hget chunk final).heap fun _ _ _ hdead => (get_acquire ..).trans hdead
  | unmatched _ _ => exact h
  | call hparser =>
    refine (h.call hparser).heap fun _ _ _ hdead => get_modify_eq_none hdead
  | @release s a final hparser _ =>
    exact (hrelease a).parser nofun (fun _ hs => by rw [hparser]; exact hs)
      (fun _ hs => by rw [hparser]; exact hs)
  | @releaseLast s a final hparser _ =>
    exact (hrelease a).parser nofun (fun _ hs => by rw [hparser]; exact hs)
      (fun _ hs => by rw [hparser]; exact hs)
  | destroyOnParser hparser =>
    exact (h.issued _ _).parser nofun (fun _ hs => by rw [hparser]; exact hs)
      (fun _ hs => by rw [hparser]; exact hs)
  | raise hparser => exact h.raise hparser
  | lower _ => exact h.unparsed

/-- In every run in which slots are picked fresh, the events are those of the flows. -/
theorem runs_fresh {as : List (Action Tid)}
    (h : Runs step PicksFresh (Threads.initial Tid) as st) : Owned st ∧ Fresh st := by
  refine h.invariant (fun st => Owned st ∧ Fresh st) ?_ ⟨initial_owned Tid, initial_fresh Tid⟩
  rintro st₁ action st₂ ⟨howned, hfresh⟩ hok hstep
  exact ⟨step_owned howned hstep, step_fresh howned hfresh hok hstep⟩

/-- **A wait returns on an event of its own flow**, in any run in which slots are picked fresh. -/
theorem runs_ownFinals {as : List (Action Tid)}
    (h : Runs step PicksFresh (Threads.initial Tid) as st) : OwnFinals st :=
  (runs_fresh h).2.completed

/-! ### A slot that is picked with its event set -/

/-- The flows for which lines with flag zero were handled are not those made later. -/
theorem step_finals_lt {action : Action Tid} (howned : Owned st)
    (h : ∀ b ∈ st.finals, b < st.heap.next) (hstep : step st action = some st') :
    ∀ b ∈ st'.finals, b < st'.heap.next := by
  cases step_did hstep with
  | create _ => exact fun b hb => Nat.lt_succ_of_lt (h b hb)
  | uncreated _ _ => exact fun b hb => Nat.lt_succ_of_lt (h b hb)
  | @call s a chunk final hparser =>
    have ha : a < st.heap.next := howned.lt_next (Or.inr ⟨s, by rw [hparser]; rfl⟩)
    cases final with
    | false => exact h
    | true  => exact List.forall_mem_append.mpr ⟨h, List.forall_mem_singleton.mpr ha⟩
  | raise _ =>
    rw [(completeAll_frame _ _).2.2.2, (completeAll_sameRefs _ _).heap]
    exact h
  | _ => exact h

/-- A command of the body succeeds. -/
theorem step_connect_ok (hrunning : st.terminated = false)
    (hpc : st.pc t = .holding .stored s a) : step st (.connect t .ok)
      = some (st.command t s a (.httpCon s) .ok .connected) := by
  simp [step, hrunning, hpc]

theorem step_send_ok (hrunning : st.terminated = false) (hpc : st.pc t = .holding .connected s a)
    {flow : Flow} (hget : st.heap.get a = some flow) (method : HttpMethod) :
    step st (.send t method .ok)
      = some (st.command t s a (.httpSend s method.code flow.path.length flow.path) .ok .sent) := by
  simp [step, hrunning, hpc, hget]

/-- A wait for an event that is set returns at once. -/
theorem step_wait_received (hrunning : st.terminated = false) (hpc : st.pc t = .holding .sent s a)
    (hset : st.event.isSet (doneBit s) = true) : step st (.wait t)
      = some ({ st with
          event := st.event.take (doneBit s), completed := st.completed ++ [a] }.goto t
            (.holding .leaving s a)) := by
  have hwait : stepWait st t s a = some ({ st with
      event := st.event.take (doneBit s), completed := st.completed ++ [a] }.goto t
        (.holding .leaving s a)) := by
    unfold stepWait
    rw [waitResponse_eq]
    simp only [hset, if_true]
  rw [step, if_neg (by simp [hrunning])]
  simp only [hpc]
  exact hwait

/-- A request in a slot whose event is set waits for nothing. -/
theorem runs_unwaited (hrunning : st.terminated = false) (hpc : st.pc t = .picked s)
    (hset : st.event.isSet (doneBit s) = true) : ∃ as st', Runs step anyAction st as st' ∧
      st'.completed = st.completed ++ [st.heap.next] ∧ st'.finals = st.finals := by
  have hcreate := step_create_ok hrunning hpc sampleUrl
  let st₁ := { st.record (some t) st.heap.next (.httpCreate s sampleUrl.host) .ok with
    heap := st.heap.make ⟨s, sampleUrl.host, sampleUrl.path, []⟩ }.goto t
      (.holding .created s st.heap.next)
  let st₂ := { st₁ with slots := Function.update st₁.slots s (some st.heap.next) }.goto t
    (.holding .stored s st.heap.next)
  have hstore : step st₁ (.store t) = some st₂ := by
    have hpc₁ : st₁.pc t = .holding .created s st.heap.next := goto_pc_self ..
    have hrunning₁ : st₁.terminated = false := hrunning
    simp [step, hrunning₁, hpc₁, st₂]
  let st₃ := st₂.command t s st.heap.next (.httpCon s) .ok .connected
  have hrunning₂ : st₂.terminated = false := hrunning
  have hconnect : step st₂ (.connect t .ok) = some st₃ :=
    step_connect_ok hrunning₂ (goto_pc_self ..)
  have hget : st₃.heap.get st.heap.next = some ⟨s, sampleUrl.host, sampleUrl.path, []⟩ :=
    get_make_self ..
  let st₄ := st₃.command t s st.heap.next (.httpSend s HttpMethod.get.code sampleUrl.path.length
    sampleUrl.path) .ok .sent
  have hrunning₃ : st₃.terminated = false := hrunning
  have hsend : step st₃ (.send t .get .ok) = some st₄ :=
    step_send_ok hrunning₃ (goto_pc_self ..) hget .get
  have hrunning₄ : st₄.terminated = false := hrunning
  have hset₄ : st₄.event.isSet (doneBit s) = true := hset
  have hwait := step_wait_received hrunning₄ (goto_pc_self ..) hset₄
  have hcreated : Runs step anyAction st [.create t sampleUrl .ok] st₁ := .single trivial hcreate
  exact ⟨_, _, (((hcreated.snoc trivial hstore).snoc trivial hconnect).snoc trivial hsend).snoc
    trivial hwait, rfl, rfl⟩

/-- **A slot that is picked with its event set** may get a flow whose wait returns without a line
    of its own. -/
theorem completed_early_of_pick {as : List (Action Tid)}
    (h : Runs step anyAction (Threads.initial Tid) as st) (hstep : step st (.pick t) = some st')
    (hnext : st.live.getNext = .returned s) (hset : st.event.isSet (doneBit s) = true) :
    ∃ as st'', Runs step anyAction st' as st'' ∧ ¬OwnFinals st'' := by
  have hmade : Owned st ∧ ∀ b ∈ st.finals, b < st.heap.next := by
    refine h.invariant (fun st => Owned st ∧ ∀ b ∈ st.finals, b < st.heap.next) ?_
      ⟨initial_owned Tid, fun _ hb => nomatch hb⟩
    rintro st₁ action st₂ ⟨howned, hfinals⟩ _ hstep
    exact ⟨step_owned howned hstep, step_finals_lt howned hfinals hstep⟩
  have hrunning := running_of_step hstep
  obtain ⟨_, rfl⟩ := step_pick hnext hstep
  have hpicked : (st.goto t (.picked s)).terminated = false := hrunning
  obtain ⟨as, st'', hruns, hcompleted, hfinals⟩ := runs_unwaited hpicked (goto_pc_self ..) hset
  refine ⟨as, st'', hruns, fun hown => ?_⟩
  have hmem : st.heap.next ∈ st''.finals := by
    apply hown
    rw [hcompleted]
    exact List.mem_append_right _ (List.mem_singleton_self _)
  rw [hfinals] at hmem
  exact Nat.lt_irrefl _ (hmade.2 _ hmem)

end Steps

/-- Two requests in a row, each with its own response. -/
theorem two_requests_ownFinals :
    ∃ st, Runs step PicksFresh (Threads.initial Unit) (oneRequest () ++ oneRequest ()) st ∧
      OwnFinals st :=
  ⟨_, runs_checked_get (by decide), runs_ownFinals (runs_checked_get (by decide))⟩

/-- **A wait returns before its response**, when a line with flag zero was handled twice for the
    flow before in the same slot. -/
theorem completed_without_final : ∃ as st, Runs step anyAction (Threads.initial Unit) as st ∧
    ¬OwnFinals st := by
  refine ⟨requestUpToWait () ++ [.line slot0 [] true, .call, .release, .raise,
    .line slot0 [] true, .call, .release, .raise, .drop (), .destroy () .ok] ++ requestUpToWait (),
    _, runs_get (by decide), ?_⟩
  intro h
  exact absurd (h 1 (by decide)) (by decide)

end Http

end RtCharger.Devices
