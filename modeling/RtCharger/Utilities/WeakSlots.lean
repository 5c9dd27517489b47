import RtCharger.Lib.SharedHeap
import RtCharger.Lib.StepSystem
import RtCharger.Utilities.LimitedSlots

namespace RtCharger.Utilities

open Effect SharedHeap StepSystem

/-!
# The weak references of limited slots

`LimitedSlots<SlotType, SlotCntType, SlotCnt>` with its array of weak references, next to the
heap of the objects they refer to and the shared pointers that keep those alive.  The slot
count and the ids have the unsigned type `SlotCntType` of `w` bits, to which the index of a
loop is converted.

* `getNext`, `acuqire`, `idOf` — the functions of the source, as they read the references;
* `step` — the operations of a program that uses them: an object is made for the slot that
  `getNext` returned and stored in it, a shared pointer is copied, dropped or acquired;
* `Inv` — a live object sits in the slot of the id it was made with, and a stale reference
  refers to no live object;
* `view` — what the weak references lock, which is what `LimitedSlots` is.
-/

/-- An object made with the id that `getNext` returned. -/
structure Element (w : Nat) (α : Type) where
  slot : BitVec w
  val : α

/-- The array of weak references, the heap, and the shared pointers that somebody holds. -/
structure WeakSlots {w : Nat} (slotCnt : BitVec w) (α : Type) where
  slots : Fin slotCnt.toNat → Option Nat
  heap : Heap (Element w α)
  owners : List Nat

variable {w : Nat} {slotCnt : BitVec w} {α : Type}

namespace WeakSlots

/-! ### The functions of the source -/

/-- `std::array<std::weak_ptr<SlotType>, SlotCnt> slots = {}`, and no object. -/
def init : WeakSlots slotCnt α := ⟨fun _ => none, SharedHeap.empty, []⟩

/-- `slots[i].lock()`: the address of the object if it still lives. -/
def lock (s : WeakSlots slotCnt α) (i : Fin slotCnt.toNat) : Option Nat :=
  (s.slots i).filter fun a => (s.heap.get a).isSome

/-- `getNext()`: the first slot whose reference is expired, and its index as an id. -/
def getNext (s : WeakSlots slotCnt α) : Outcome Exn (Fin slotCnt.toNat × BitVec w) :=
  match (List.finRange slotCnt.toNat).find? fun i => (s.lock i).isNone with
  | some i => .returned (i, BitVec.ofNat w i.val)
  | none   => .threw (.std "slot exhausted")

/-- `acuqire(idx)`. -/
def acuqire (s : WeakSlots slotCnt α) (idx : BitVec w) : Outcome Exn Nat :=
  -- an index that the array does not have is not checked for
  if h : idx.toNat < slotCnt.toNat then
    match s.lock ⟨idx.toNat, h⟩ with
    | some a => .returned a
    | none   => .threw (.std "slot is invalid")
  else .undefined

/-- `idOf(slot)` of the object at an address: the first slot whose reference locks it. -/
def idOf (s : WeakSlots slotCnt α) (a : Nat) : Outcome Exn (BitVec w) :=
  match (List.finRange slotCnt.toNat).find? fun i => s.lock i == some a with
  | some i => .returned (BitVec.ofNat w i.val)
  | none   => .threw (.std "slot not found")

/-! ### Programs that use them -/

/-- The operations of a program. -/
inductive Action (w : Nat) (α : Type) where
  /-- `auto&& [slot, id] = slots.getNext(); slot = make_shared<SlotType>(…, id, …)` -/
  | create (x : α)
  /-- A shared pointer is copied. -/
  | copy (a : Nat)
  /-- A shared pointer is dropped. -/
  | drop (a : Nat)
  /-- `acuqire(idx)` with an index that the array has. -/
  | acuqire (idx : BitVec w)
  /-- `idOf(slot)` -/
  | idOf (a : Nat)
deriving DecidableEq

/-- Make an object with an id and store it in a slot; the caller keeps the shared pointer. -/
def store (s : WeakSlots slotCnt α) (i : Fin slotCnt.toNat) (id : BitVec w) (x : α) :
    WeakSlots slotCnt α :=
  { slots  := Function.update s.slots i (some s.heap.next)
    heap   := s.heap.make ⟨id, x⟩
    owners := s.heap.next :: s.owners }

/-- One more shared pointer to an object. -/
def hold (s : WeakSlots slotCnt α) (a : Nat) : WeakSlots slotCnt α :=
  { s with heap := s.heap.acquire a, owners := a :: s.owners }

/-- One operation.  Only a shared pointer that somebody holds can be copied, dropped or asked
    for its id; an operation that throws changes nothing. -/
def step (s : WeakSlots slotCnt α) : Action w α → Option (WeakSlots slotCnt α)
  | .create x =>
    match s.getNext with
    | .returned (i, id) => some (s.store i id x)
    | _                 => some s
  | .copy a => if a ∈ s.owners then some (s.hold a) else none
  | .drop a =>
    if a ∈ s.owners then
      some { s with heap := s.heap.release a, owners := s.owners.erase a }
    else none
  | .acuqire idx =>
    match s.acuqire idx with
    | .returned a => some (s.hold a)
    | .threw _    => some s
    | _           => none
  | .idOf a => if a ∈ s.owners then some s else none

/-- The object at `a` lives and was made with the id `id`. -/
def Live (s : WeakSlots slotCnt α) (a : Nat) (id : BitVec w) : Prop :=
  ∃ x, s.heap.get a = some ⟨id, x⟩

/-! ### The functions over the weak references -/

/-- What the weak references lock. -/
def view (s : WeakSlots slotCnt α) : LimitedSlots Nat slotCnt.toNat := s.lock

/-- `getNext` picks the slot that it picks from what the references lock. -/
theorem getNext_view (s : WeakSlots slotCnt α) :
    s.getNext = match s.view.getNext with
      | .returned i => .returned (i, BitVec.ofNat w i.val)
      | .threw e    => .threw e
      | .terminated => .terminated
      | .undefined  => .undefined := by
  simp only [getNext, LimitedSlots.getNext, view]
  cases (List.finRange slotCnt.toNat).find? fun i => (s.lock i).isNone <;> rfl

theorem lock_eq_some_iff {s : WeakSlots slotCnt α} {i : Fin slotCnt.toNat} {a : Nat} :
    s.lock i = some a ↔ s.slots i = some a ∧ (s.heap.get a).isSome = true := by
  simp [lock, Option.filter_eq_some_iff]

/-- A slot number of the array is not changed by the conversion to `SlotCntType`. -/
theorem toNat_ofNat_slot (i : Fin slotCnt.toNat) : (BitVec.ofNat w i.val).toNat = i.val := by
  rw [BitVec.toNat_ofNat]
  exact Nat.mod_eq_of_lt (Nat.lt_trans i.isLt slotCnt.isLt)

/-- The loops of the source stop at the least index that meets the condition. -/
theorem find?_finRange_eq_some_iff {n : Nat} {p : Fin n → Bool} {i : Fin n} :
    (List.finRange n).find? p = some i ↔ p i = true ∧ ∀ j < i, p j = false := by
  rw [List.find?_eq_some_iff_getElem]
  constructor
  · rintro ⟨hp, k, hk, heq, hbefore⟩
    refine ⟨hp, fun j hj => ?_⟩
    rw [List.getElem_finRange] at heq
    have hjk : j.val < k := by
      rw [← heq] at hj
      exact hj
    simpa using hbefore j.val hjk
  · rintro ⟨hp, hbefore⟩
    refine ⟨hp, i.val, by simp, by simp, fun j hj => ?_⟩
    simp [hbefore ⟨j, by omega⟩ hj]

/-- An id of the array is the index of a slot. -/
theorem ofNat_toNat_slot {id : BitVec w} (h : id < slotCnt) :
    ∃ i : Fin slotCnt.toNat, BitVec.ofNat w i.val = id :=
  ⟨⟨id.toNat, h⟩, by simp⟩

/-! ### The invariant -/

/-- A live object sits in the slot of its id, whoever lives in a slot has its id, and no
    reference refers to an address that is still to be handed out. -/
structure Inv (s : WeakSlots slotCnt α) : Prop where
  counted : s.heap.Counted s.owners
  slot_of_live : ∀ a id, s.Live a id → ∃ i, BitVec.ofNat w i.val = id ∧ s.slots i = some a
  id_of_slot : ∀ i a id, s.slots i = some a → s.Live a id → BitVec.ofNat w i.val = id
  lt_next : ∀ i a, s.slots i = some a → a < s.heap.next

/-- Operations that touch neither the slots nor the living objects, other than by destroying
    some of them. -/
theorem Inv.mono {s s' : WeakSlots slotCnt α} (hs : Inv s) (hcounted : s'.heap.Counted s'.owners)
    (hslots : s'.slots = s.slots) (hnext : s'.heap.next = s.heap.next)
    (hlive : ∀ a id, s'.Live a id → s.Live a id) : Inv s' := by
  refine ⟨hcounted, ?_, ?_, ?_⟩
  · intro a id ha
    rw [hslots]
    exact hs.slot_of_live a id (hlive a id ha)
  · intro i a id hi ha
    rw [hslots] at hi
    exact hs.id_of_slot i a id hi (hlive a id ha)
  · intro i a hi
    rw [hslots] at hi
    rw [hnext]
    exact hs.lt_next i a hi

theorem inv_init : Inv (init : WeakSlots slotCnt α) := by
  refine ⟨counted_empty, ?_, ?_, ?_⟩
  · rintro a id ⟨x, hx⟩
    cases hx
  · intro i a id hi
    cases hi
  · intro i a hi
    cases hi

/-- Who lives after an object was made and stored. -/
theorem live_store_cases {s : WeakSlots slotCnt α} {i : Fin slotCnt.toNat} {id id' : BitVec w}
    {x : α} {a : Nat} (ha : (s.store i id x).Live a id') :
    (a = s.heap.next ∧ id' = id) ∨ s.Live a id' := by
  obtain ⟨y, hy⟩ := ha
  rcases get_make_cases hy with ⟨rfl, heq⟩ | hold
  · injection heq with hid
    exact Or.inl ⟨rfl, hid.symm⟩
  · exact Or.inr ⟨y, hold⟩

/-- Nobody lives at the address that is handed out next. -/
theorem Inv.not_live_next {s : WeakSlots slotCnt α} (hs : Inv s) (id : BitVec w) :
    ¬ s.Live s.heap.next id := by
  rintro ⟨x, hx⟩
  exact hs.counted.next_not_mem (hs.counted.mem_of_get hx)

/-- A new object may be stored in a slot whose reference is expired, with the id of the slot. -/
theorem Inv.store {s : WeakSlots slotCnt α} (hs : Inv s) {i : Fin slotCnt.toNat}
    (hfree : s.lock i = none) (x : α) : Inv (s.store i (BitVec.ofNat w i.val) x) := by
  refine ⟨hs.counted.make _, ?_, ?_, ?_⟩
  · intro a id ha
    rcases live_store_cases ha with ⟨rfl, rfl⟩ | hlive
    · exact ⟨i, rfl, Function.update_self ..⟩
    · obtain ⟨j, hj, hslot⟩ := hs.slot_of_live a id hlive
      -- the slot of a live object is not the expired one
      have hne : j ≠ i := by
        rintro rfl
        obtain ⟨y, hy⟩ := hlive
        rw [lock_eq_some_iff.mpr ⟨hslot, by rw [hy]; rfl⟩] at hfree
        cases hfree
      exact ⟨j, hj, (Function.update_of_ne hne ..).trans hslot⟩
  · intro j a id hj ha
    by_cases hji : j = i
    · subst hji
      have hnext : s.heap.next = a := by
        simpa [WeakSlots.store] using hj
      rcases live_store_cases ha with ⟨_, hid⟩ | hlive
      · exact hid.symm
      · rw [← hnext] at hlive
        exact absurd hlive (hs.not_live_next id)
    · have hslot : s.slots j = some a := (Function.update_of_ne hji ..).symm.trans hj
      rcases live_store_cases ha with ⟨rfl, _⟩ | hlive
      · exact absurd (hs.lt_next j _ hslot) (Nat.lt_irrefl _)
      · exact hs.id_of_slot j a id hslot hlive
  · intro j a hj
    by_cases hji : j = i
    · subst hji
      have hnext : s.heap.next = a := by
        simpa [WeakSlots.store] using hj
      rw [← hnext]
      exact Nat.lt_succ_self _
    · exact Nat.lt_succ_of_lt (hs.lt_next j a ((Function.update_of_ne hji ..).symm.trans hj))

/-- A shared pointer to an object that somebody holds may be copied. -/
theorem Inv.hold {s : WeakSlots slotCnt α} (hs : Inv s) {a : Nat} (ha : a ∈ s.owners) :
    Inv (s.hold a) := by
  refine hs.mono (hs.counted.acquire ha) rfl rfl fun b id hb => ?_
  simpa [Live, WeakSlots.hold] using hb

/-- Somebody holds what a slot locks. -/
theorem Inv.mem_owners_of_lock {s : WeakSlots slotCnt α} (hs : Inv s) {a : Nat}
    (ha : ∃ i, s.lock i = some a) : a ∈ s.owners := by
  obtain ⟨i, hi⟩ := ha
  exact (hs.counted.alive_iff a).mp (lock_eq_some_iff.mp hi).2

/-! ### The functions under the invariant -/

/-- **What a slot locks** is the live object with the id of the slot. -/
theorem Inv.lock_iff {s : WeakSlots slotCnt α} (hs : Inv s) {i : Fin slotCnt.toNat} {a : Nat} :
    s.lock i = some a ↔ s.Live a (BitVec.ofNat w i.val) := by
  rw [lock_eq_some_iff]
  constructor
  · rintro ⟨hslot, hsome⟩
    obtain ⟨⟨id, x⟩, hx⟩ := Option.isSome_iff_exists.mp hsome
    rw [hs.id_of_slot i a id hslot ⟨x, hx⟩]
    exact ⟨x, hx⟩
  · intro hlive
    obtain ⟨j, hj, hslot⟩ := hs.slot_of_live a _ hlive
    have hji : j = i := by
      apply Fin.ext
      rw [← toNat_ofNat_slot j, hj, toNat_ofNat_slot]
    obtain ⟨x, hx⟩ := hlive
    subst hji
    exact ⟨hslot, by rw [hx]; rfl⟩

/-- A slot locks nothing when no live object has its id. -/
theorem Inv.lock_eq_none_iff {s : WeakSlots slotCnt α} (hs : Inv s) {i : Fin slotCnt.toNat} :
    s.lock i = none ↔ ∀ a, ¬ s.Live a (BitVec.ofNat w i.val) := by
  rw [Option.eq_none_iff_forall_ne_some]
  exact forall_congr' fun a => not_congr hs.lock_iff

/-- A live object has an id that the array has. -/
theorem Inv.id_lt {s : WeakSlots slotCnt α} (hs : Inv s) {a : Nat} {id : BitVec w}
    (ha : s.Live a id) : id < slotCnt := by
  obtain ⟨i, rfl, _⟩ := hs.slot_of_live a id ha
  rw [BitVec.lt_def, toNat_ofNat_slot]
  exact i.isLt

/-- Two live objects do not have the same id. -/
theorem Inv.id_injective {s : WeakSlots slotCnt α} (hs : Inv s) {a b : Nat} {id : BitVec w}
    (ha : s.Live a id) (hb : s.Live b id) : a = b := by
  obtain ⟨i, rfl⟩ := ofNat_toNat_slot (hs.id_lt ha)
  have hlock := hs.lock_iff.mpr ha
  rw [hs.lock_iff.mpr hb] at hlock
  exact (Option.some.inj hlock).symm

/-- An object has one id. -/
theorem Live.id_unique {s : WeakSlots slotCnt α} {a : Nat} {id id' : BitVec w}
    (h : s.Live a id) (h' : s.Live a id') : id = id' := by
  obtain ⟨x, hx⟩ := h
  obtain ⟨y, hy⟩ := h'
  rw [hx] at hy
  injection hy with hy
  injection hy

/-- What `acuqire` does with the id of a slot. -/
theorem acuqire_slot (s : WeakSlots slotCnt α) (i : Fin slotCnt.toNat) :
    s.acuqire (BitVec.ofNat w i.val) = match s.lock i with
      | some a => .returned a
      | none   => .threw (.std "slot is invalid") := by
  have hi : (⟨(BitVec.ofNat w i.val).toNat, by rw [toNat_ofNat_slot]; exact i.isLt⟩ :
      Fin slotCnt.toNat) = i := Fin.ext (toNat_ofNat_slot i)
  rw [acuqire, dif_pos (by rw [toNat_ofNat_slot]; exact i.isLt), hi]

/-- `acuqire` returns what a slot locks, throws, or reads past the array. -/
theorem acuqire_cases (s : WeakSlots slotCnt α) (idx : BitVec w) :
    (∃ a, s.acuqire idx = .returned a ∧ ∃ i, s.lock i = some a) ∨
      s.acuqire idx = .threw (.std "slot is invalid") ∨ s.acuqire idx = .undefined := by
  unfold acuqire
  by_cases hidx : idx.toNat < slotCnt.toNat
  · rw [dif_pos hidx]
    cases hlock : s.lock ⟨idx.toNat, hidx⟩ with
    | some a => exact Or.inl ⟨a, rfl, _, hlock⟩
    | none   => exact Or.inr (Or.inl rfl)
  · rw [dif_neg hidx]
    exact Or.inr (Or.inr rfl)

/-- It throws for the index of a slot that locks nothing. -/
theorem acuqire_threw_iff {s : WeakSlots slotCnt α} {idx : BitVec w} :
    (∃ e, s.acuqire idx = .threw e) ↔
      ∃ i : Fin slotCnt.toNat, BitVec.ofNat w i.val = idx ∧ s.lock i = none := by
  constructor
  · rintro ⟨e, he⟩
    unfold acuqire at he
    by_cases hidx : idx.toNat < slotCnt.toNat
    · rw [dif_pos hidx] at he
      refine ⟨⟨idx.toNat, hidx⟩, by simp, ?_⟩
      cases hlock : s.lock ⟨idx.toNat, hidx⟩ with
      | none   => rfl
      | some a =>
        rw [hlock] at he
        cases he
    · rw [dif_neg hidx] at he
      cases he
  · rintro ⟨i, rfl, hnone⟩
    exact ⟨_, by rw [acuqire_slot, hnone]⟩

/-- `acuqire` returns the live object with that id. -/
theorem Inv.acuqire_eq_returned_iff {s : WeakSlots slotCnt α} (hs : Inv s) {idx : BitVec w}
    (hidx : idx < slotCnt) {a : Nat} : s.acuqire idx = .returned a ↔ s.Live a idx := by
  obtain ⟨i, rfl⟩ := ofNat_toNat_slot hidx
  rw [← hs.lock_iff, acuqire_slot]
  cases s.lock i <;> simp

/-- It throws when there is none. -/
theorem Inv.acuqire_eq_threw_iff {s : WeakSlots slotCnt α} (hs : Inv s) {idx : BitVec w}
    (hidx : idx < slotCnt) :
    s.acuqire idx = .threw (.std "slot is invalid") ↔ ∀ a, ¬ s.Live a idx := by
  obtain ⟨i, rfl⟩ := ofNat_toNat_slot hidx
  rw [← hs.lock_eq_none_iff, acuqire_slot]
  cases s.lock i <;> simp

/-- `idOf` returns the id of a live object. -/
theorem Inv.idOf_eq_returned {s : WeakSlots slotCnt α} (hs : Inv s) {a : Nat} {id : BitVec w}
    (ha : s.Live a id) : s.idOf a = .returned id := by
  obtain ⟨i, rfl⟩ := ofNat_toNat_slot (hs.id_lt ha)
  have hlock := hs.lock_iff.mpr ha
  have hbefore : ∀ j < i, (s.lock j == some a) = false := by
    intro j hj
    rw [beq_eq_false_iff_ne]
    intro hlock'
    have hid := (hs.lock_iff.mp hlock').id_unique ha
    have hji : j.val = i.val := by
      rw [← toNat_ofNat_slot j, hid, toNat_ofNat_slot]
    exact absurd hji (Nat.ne_of_lt hj)
  rw [idOf, find?_finRange_eq_some_iff.mpr ⟨by rw [hlock]; exact beq_self_eq_true _, hbefore⟩]

/-- `getNext` returns the first slot that locks nothing, or throws if there is none. -/
theorem getNext_cases (s : WeakSlots slotCnt α) :
    (∃ i, s.getNext = .returned (i, BitVec.ofNat w i.val) ∧ s.lock i = none ∧
        ∀ j < i, s.lock j ≠ none) ∨
      (s.getNext = .threw (.std "slot exhausted") ∧ ∀ i, s.lock i ≠ none) := by
  unfold getNext
  cases hfind : (List.finRange slotCnt.toNat).find? fun i => (s.lock i).isNone with
  | some i =>
    obtain ⟨hi, hbefore⟩ := find?_finRange_eq_some_iff.mp hfind
    refine Or.inl ⟨i, rfl, Option.isNone_iff_eq_none.mp hi, fun j hj hnone => ?_⟩
    have hsome := hbefore j hj
    rw [hnone] at hsome
    cases hsome
  | none =>
    refine Or.inr ⟨rfl, fun i hnone => ?_⟩
    have hsome := List.find?_eq_none.mp hfind i (List.mem_finRange i)
    exact hsome (Option.isNone_iff_eq_none.mpr hnone)

/-- A slot locks something exactly when an object with its id lives. -/
theorem Inv.lock_ne_none_iff {s : WeakSlots slotCnt α} (hs : Inv s) {i : Fin slotCnt.toNat} :
    s.lock i ≠ none ↔ ∃ a, s.Live a (BitVec.ofNat w i.val) := by
  rw [ne_eq, hs.lock_eq_none_iff, not_forall_not]

/-- **`getNext` returns the least id without a live object**, or throws if all ids have one. -/
theorem Inv.getNext_cases {s : WeakSlots slotCnt α} (hs : Inv s) :
    (∃ i id, s.getNext = .returned (i, id) ∧ id = BitVec.ofNat w i.val ∧ id < slotCnt ∧
        (∀ a, ¬ s.Live a id) ∧ ∀ j < id, ∃ a, s.Live a j) ∨
      (s.getNext = .threw (.std "slot exhausted") ∧ ∀ id < slotCnt, ∃ a, s.Live a id) := by
  rcases WeakSlots.getNext_cases s with ⟨i, hget, hnone, hbefore⟩ | ⟨hget, hall⟩
  · have hlt : BitVec.ofNat w i.val < slotCnt := by
      rw [BitVec.lt_def, toNat_ofNat_slot]
      exact i.isLt
    refine Or.inl ⟨i, _, hget, rfl, hlt, hs.lock_eq_none_iff.mp hnone, fun j hj => ?_⟩
    obtain ⟨k, rfl⟩ := ofNat_toNat_slot (BitVec.lt_trans hj hlt)
    rw [BitVec.lt_def, toNat_ofNat_slot, toNat_ofNat_slot] at hj
    exact hs.lock_ne_none_iff.mp (hbefore k hj)
  · refine Or.inr ⟨hget, fun id hid => ?_⟩
    obtain ⟨i, rfl⟩ := ofNat_toNat_slot hid
    exact hs.lock_ne_none_iff.mp (hall i)

/-- The id that `getNext` returns. -/
theorem Inv.getNext_eq_returned_iff {s : WeakSlots slotCnt α} (hs : Inv s) {id : BitVec w} :
    (∃ i, s.getNext = .returned (i, id)) ↔
      id < slotCnt ∧ (∀ a, ¬ s.Live a id) ∧ ∀ j < id, ∃ a, s.Live a j := by
  rcases hs.getNext_cases with ⟨i, id', hget, _, hlt, hfree, hbefore⟩ | ⟨hget, hall⟩
  · rw [hget]
    constructor
    · rintro ⟨k, heq⟩
      cases heq
      exact ⟨hlt, hfree, hbefore⟩
    · rintro ⟨_, hfree', hbefore'⟩
      -- both are the least id that is free
      have hle : ¬ id < id' := fun h => (hbefore id h).elim hfree'
      have hge : ¬ id' < id := fun h => (hbefore' id' h).elim hfree
      have heq : id = id' := by
        apply BitVec.le_antisymm
        · exact BitVec.not_lt.mp hge
        · exact BitVec.not_lt.mp hle
      exact ⟨i, by rw [heq]⟩
  · rw [hget]
    constructor
    · rintro ⟨k, heq⟩
      cases heq
    · rintro ⟨hlt, hfree, _⟩
      exact absurd (hall id hlt) (by simpa using hfree)

/-- It throws exactly when all ids have a live object. -/
theorem Inv.getNext_eq_threw_iff {s : WeakSlots slotCnt α} (hs : Inv s) :
    s.getNext = .threw (.std "slot exhausted") ↔ ∀ id < slotCnt, ∃ a, s.Live a id := by
  rcases hs.getNext_cases with ⟨i, id, hget, _, hlt, hfree, _⟩ | ⟨hget, hall⟩
  · rw [hget]
    constructor
    · intro heq
      cases heq
    · intro hall
      exact absurd (hall id hlt) (by simpa using hfree)
  · exact iff_of_true hget hall

/-! ### Every run -/

/-- **One operation.** -/
theorem Inv.step {s s' : WeakSlots slotCnt α} (hs : Inv s) {a : Action w α}
    (h : s.step a = some s') : Inv s' := by
  cases a with
  | create x =>
    rcases WeakSlots.getNext_cases s with ⟨i, hget, hnone, _⟩ | ⟨hget, _⟩
    · simp only [WeakSlots.step, hget, Option.some.injEq] at h
      subst h
      exact hs.store hnone x
    · simp only [WeakSlots.step, hget, Option.some.injEq] at h
      exact h ▸ hs
  | copy a =>
    simp only [WeakSlots.step, Option.ite_none_right_eq_some] at h
    obtain ⟨ha, heq⟩ := h
    cases heq
    exact hs.hold ha
  | drop a =>
    simp only [WeakSlots.step, Option.ite_none_right_eq_some] at h
    obtain ⟨ha, heq⟩ := h
    cases heq
    refine hs.mono (hs.counted.release ha) rfl rfl ?_
    rintro b id ⟨x, hx⟩
    exact ⟨x, get_of_get_release hx⟩
  | acuqire idx =>
    rcases s.acuqire_cases idx with ⟨a, hacq, ha⟩ | hacq | hacq
    · simp only [WeakSlots.step, hacq, Option.some.injEq] at h
      subst h
      exact hs.hold (hs.mem_owners_of_lock ha)
    · simp only [WeakSlots.step, hacq, Option.some.injEq] at h
      exact h ▸ hs
    · simp only [WeakSlots.step, hacq] at h
      cases h
  | idOf a =>
    simp only [WeakSlots.step, Option.ite_none_right_eq_some, Option.some.injEq] at h
    exact h.2 ▸ hs

/-- **Any sequence of operations.** -/
theorem inv_of_runs {s : WeakSlots slotCnt α} {as : List (Action w α)}
    (h : Runs WeakSlots.step anyAction (init : WeakSlots slotCnt α) as s) : Inv s :=
  h.invariant Inv (fun _ _ _ hs _ hstep => hs.step hstep) inv_init

/-- **Limited slots hand out distinct ids.**  After any sequence of operations on the slots of
    any count: the ids of the live objects are pairwise distinct and below the count; `getNext`
    returns the least id without a live object and throws exactly when all of them have one;
    `acuqire` returns exactly the live object with that id and throws exactly when there is
    none; and `idOf` and `acuqire` are inverse to each other. -/
theorem distinct_ids {s : WeakSlots slotCnt α} {as : List (Action w α)}
    (h : Runs WeakSlots.step anyAction (init : WeakSlots slotCnt α) as s) :
    (∀ a id, s.Live a id → id < slotCnt) ∧
      (∀ a b id, s.Live a id → s.Live b id → a = b) ∧
      (∀ id, (∃ i, s.getNext = .returned (i, id)) ↔
        id < slotCnt ∧ (∀ a, ¬ s.Live a id) ∧ ∀ j < id, ∃ a, s.Live a j) ∧
      (s.getNext = .threw (.std "slot exhausted") ↔ ∀ id < slotCnt, ∃ a, s.Live a id) ∧
      (∀ idx < slotCnt, (∀ a, s.acuqire idx = .returned a ↔ s.Live a idx) ∧
        (s.acuqire idx = .threw (.std "slot is invalid") ↔ ∀ a, ¬ s.Live a idx)) ∧
      (∀ idx < slotCnt, ∀ a, s.acuqire idx = .returned a → s.idOf a = .returned idx) ∧
      ∀ a id, s.Live a id → s.idOf a = .returned id ∧ s.acuqire id = .returned a := by
  have hs := inv_of_runs h
  refine ⟨fun a id => hs.id_lt, fun a b id => hs.id_injective,
    fun id => hs.getNext_eq_returned_iff, hs.getNext_eq_threw_iff,
    fun idx hidx => ⟨fun a => hs.acuqire_eq_returned_iff hidx, hs.acuqire_eq_threw_iff hidx⟩,
    ?_, ?_⟩
  · intro idx hidx a hacq
    exact hs.idOf_eq_returned ((hs.acuqire_eq_returned_iff hidx).mp hacq)
  · intro a id ha
    exact ⟨hs.idOf_eq_returned ha, (hs.acuqire_eq_returned_iff (hs.id_lt ha)).mpr ha⟩

/-- Two slots: the third object is refused until the first one is dropped. -/
theorem distinct_ids_two_slots :
    ∃ s : WeakSlots (2#8) Unit,
      Runs WeakSlots.step anyAction init
        [.create (), .create (), .create (), .acuqire 1, .drop 0, .create (), .idOf 2] s ∧
      s.idOf 2 = .returned 0 ∧ s.idOf 1 = .returned 1 ∧
      (s.getNext = .threw (.std "slot exhausted") ↔ ∀ id < 2#8, ∃ a, s.Live a id) :=
  have hrun : Runs WeakSlots.step anyAction (init : WeakSlots (2#8) Unit)
      [.create (), .create (), .create (), .acuqire 1, .drop 0, .create (), .idOf 2] _ :=
    runs_get (by decide)
  ⟨_, hrun, by decide, by decide, (distinct_ids hrun).2.2.2.1⟩

end WeakSlots

end RtCharger.Utilities
