import RtCharger.Lib.Effect
import Mathlib.Data.List.FinRange

namespace RtCharger.Utilities

open Effect

/-!
# Limited slots

`LimitedSlots` of `limited_slots.hxx`, whose slots hold weak references: a slot is seen as the
object that its reference locks, or nothing once that object is gone.

* `getNext`, `acuqire` — the functions of the source;
* `acuqire_live` — the object of a live slot is found.
-/

/-- The live object of each slot. -/
abbrev LimitedSlots (α : Type) (slotCnt : Nat) : Type := Fin slotCnt → Option α

/-- The conversion of an `int` to the slot type `uint8_t`. -/
def toSlotType (n : Int) : Nat := (n.emod 256).toNat

variable {α : Type} {slotCnt : Nat}

/-- `getNext()`: the first slot whose reference is expired. -/
def LimitedSlots.getNext (slots : LimitedSlots α slotCnt) : Outcome Exn (Fin slotCnt) :=
  match (List.finRange slotCnt).find? fun i => (slots i).isNone with
  | some i => .returned i
  | none   => .threw (.std "slot exhausted")

/-- `acuqire(idx)`; the object is named by its slot. -/
def LimitedSlots.acuqire (slots : LimitedSlots α slotCnt) (idx : Nat) : Outcome Exn (Fin slotCnt) :=
  -- an index that the array does not have is not checked for
  if h : idx < slotCnt then
    if (slots ⟨idx, h⟩).isSome then .returned ⟨idx, h⟩ else .threw (.std "slot is invalid")
  else .undefined

/-- A slot number of the type is not changed by the conversion. -/
theorem toSlotType_of_lt {i : Nat} (h : i < 256) : toSlotType (i : Int) = i := by
  have hmod : (i : Int).emod 256 = i := Int.emod_eq_of_lt (by omega) (by omega)
  rw [toSlotType, hmod]
  exact Int.toNat_natCast i

/-- The object of a live slot is found. -/
theorem LimitedSlots.acuqire_live {slots : LimitedSlots α slotCnt} {s : Fin slotCnt} {x : α}
    (h : slots s = some x) : slots.acuqire s.val = .returned s := by
  rw [LimitedSlots.acuqire, dif_pos s.isLt, h]
  rfl

/-- A slot is free exactly when no object lives in it, and the first free one is picked. -/
theorem LimitedSlots.getNext_returned {slots : LimitedSlots α slotCnt} {s : Fin slotCnt}
    (h : slots.getNext = .returned s) : slots s = none := by
  unfold LimitedSlots.getNext at h
  split at h
  · rename_i i hfind
    cases h
    simpa using List.find?_some hfind
  · cases h

/-- A slot is picked, or the slots are exhausted. -/
theorem LimitedSlots.getNext_cases (slots : LimitedSlots α slotCnt) :
    (∃ s, slots.getNext = .returned s) ∨ ∃ e, slots.getNext = .threw e := by
  unfold LimitedSlots.getNext
  cases (List.finRange slotCnt).find? fun i => (slots i).isNone with
  | some i => exact Or.inl ⟨i, rfl⟩
  | none   => exact Or.inr ⟨_, rfl⟩

end RtCharger.Utilities
