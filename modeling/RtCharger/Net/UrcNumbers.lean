import RtCharger.Net.UrcArguments
import RtCharger.Utilities.Integral
import RtCharger.Utilities.WeakSlots

namespace RtCharger.Net

open Effect RtCharger.Utilities

/-!
# Numbers and slot ids in a line

A number goes from its field through `from_chars`, whose failure is not looked at, and a slot id
further through the conversion to the type of the ids and an index that is not checked.  The
argument is exact, or an error, only for the fields that the two results here name:

* `integralExact_iff` — a number of any integral type;
* `slotExact_iff` — the id of a slot, for any number of slots and any of them live.
-/

variable {w : Nat} {slotCnt : BitVec w} {α : Type} {ty : IntegralType} {opt : Options}
  {uninitialised : Int} {field : Text}

/-! ### What is made of a field -/

/-- `parse<X>` of the preprocessed field, for a parameter of an integral type `X`. -/
def integralArgument (ty : IntegralType) (opt : Options) (uninitialised : Int) (field : Text) :
    Outcome Exn Int :=
  match preprocessArg field opt with
  | none   => .undefined
  | some a => .returned (ty.parse a uninitialised)

/-- For an `int` it is the argument that the handler makes. -/
theorem argumentOf_int {A : Type} (acquire : Acquire A) :
    argumentOf acquire opt uninitialised .int field
      = (integralArgument .int opt uninitialised field).bind fun n => .returned (.int n) := by
  simp only [argumentOf, integralArgument, IntegralType.parse_int]
  cases preprocessArg field opt <;> rfl

/-- The lookup of a slot: the `int` is converted to the type of the ids. -/
def WeakSlots.lookup (s : WeakSlots slotCnt α) : Acquire Nat :=
  some fun slotId => s.acuqire (BitVec.ofInt w slotId)

/-- For the ids of eight bits this is the conversion to `uint8_t`. -/
theorem toNat_ofInt_eight (n : Int) : (BitVec.ofInt 8 n).toNat = toSlotType n := by
  rw [BitVec.toNat_ofInt]
  rfl

/-- The field, without padding and quotes, begins with the decimal integer `n`. -/
def Denotes (ty : IntegralType) (opt : Options) (field : Text) (n : Int) : Prop :=
  ∃ a, preprocessArg field opt = some a ∧ ty.BeginsWith a n

/-- A field begins with one integer. -/
theorem Denotes.unique {n m : Int} (hn : Denotes ty opt field n) (hm : Denotes ty opt field m) :
    n = m := by
  obtain ⟨a, ha, hn⟩ := hn
  obtain ⟨b, hb, hm⟩ := hm
  rw [ha] at hb
  cases hb
  rw [IntegralType.beginsWith_iff] at hn hm
  rw [hn] at hm
  exact Option.some.inj hm

/-! ### Numbers -/

/-- The parameter gets the integer that the field begins with, or an error is thrown, whatever
    the variable holds that was not initialised. -/
def IntegralExact (ty : IntegralType) (opt : Options) (field : Text) : Prop :=
  ∀ uninitialised, ty.InRange uninitialised →
    (∃ n, Denotes ty opt field n ∧ ty.InRange n ∧
        integralArgument ty opt uninitialised field = .returned n) ∨
      ∃ e, integralArgument ty opt uninitialised field = .threw e

/-- Every type has a zero. -/
theorem inRange_zero (ty : IntegralType) : ty.InRange 0 := by
  have hpow : ∀ n : Nat, (0 : Int) < 2 ^ n := fun n => Int.pow_pos (by decide)
  have h₁ := hpow (ty.bits - 1)
  have h₂ := hpow ty.bits
  unfold IntegralType.InRange IntegralType.min IntegralType.max
  split_ifs <;> omega

/-- **A number is exact** only if the field begins with one that the type has. -/
theorem integralExact_iff :
    IntegralExact ty opt field ↔ ∃ n, Denotes ty opt field n ∧ ty.InRange n := by
  constructor
  · intro h
    rcases h 0 (inRange_zero ty) with ⟨n, hn, hrange, _⟩ | ⟨e, he⟩
    · exact ⟨n, hn, hrange⟩
    · unfold integralArgument at he
      cases ha : preprocessArg field opt <;> simp [ha] at he
  · rintro ⟨n, ⟨a, ha, hn⟩, hrange⟩ uninitialised _
    refine Or.inl ⟨n, ⟨a, ha, hn⟩, hrange, ?_⟩
    have hparse := IntegralType.fromChars_eq_some_iff.mpr ⟨hn, hrange⟩
    simp only [integralArgument, ha, IntegralType.parse, hparse, Option.getD_some]

/-! ### Slots -/

/-- The parameter gets the live object of the slot whose index the field begins with, or an
    error is thrown, whatever the variable holds that was not initialised. -/
def SlotExact (s : WeakSlots slotCnt α) (opt : Options) (field : Text) : Prop :=
  ∀ uninitialised, IntegralType.int.InRange uninitialised →
    (∃ (i : Fin slotCnt.toNat) (obj : Nat), Denotes .int opt field i.val ∧ s.lock i = some obj ∧
        argumentOf (WeakSlots.lookup s) opt uninitialised .slot field = .returned (.slot obj)) ∨
      ∃ e, argumentOf (WeakSlots.lookup s) opt uninitialised .slot field = .threw e

/-- The field begins with the index of a slot, or with a number that the conversion turns into
    the index of a slot without a live object. -/
def SlotField (s : WeakSlots slotCnt α) (opt : Options) (field : Text) : Prop :=
  ∃ n, Denotes .int opt field n ∧ IntegralType.int.InRange n ∧
    ((0 ≤ n ∧ n < slotCnt.toNat) ∨
      ∃ i : Fin slotCnt.toNat, BitVec.ofNat w i.val = BitVec.ofInt w n ∧ s.lock i = none)

/-- The argument of a field that begins with a number of type `int`. -/
theorem argumentOf_slot {s : WeakSlots slotCnt α} {a : Text} {n : Int}
    (ha : preprocessArg field opt = some a) (hn : IntegralType.int.parse a uninitialised = n) :
    argumentOf (WeakSlots.lookup s) opt uninitialised .slot field
      = (s.acuqire (BitVec.ofInt w n)).bind fun obj => .returned (.slot obj) := by
  rw [IntegralType.parse_int] at hn
  simp only [argumentOf, ha, WeakSlots.lookup, hn]

/-- The greatest number of the id type is no index, as there are at most that many slots. -/
theorem acuqire_neg_one (s : WeakSlots slotCnt α) :
    s.acuqire (BitVec.ofInt w (-1)) = .undefined := by
  have hge : ¬ (BitVec.ofInt w (-1)).toNat < slotCnt.toNat := by
    have hones : BitVec.ofInt w (-1) = BitVec.allOnes w := by
      rw [← BitVec.neg_one_eq_allOnes, BitVec.ofInt_neg]
      rfl
    have hlt := slotCnt.isLt
    rw [hones, BitVec.toNat_allOnes]
    omega
  rw [WeakSlots.acuqire, dif_neg hge]

/-- **A slot is exact** only if the field begins with its index, or the code is lucky. -/
theorem slotExact_iff {s : WeakSlots slotCnt α} :
    SlotExact s opt field ↔ SlotField s opt field := by
  constructor
  · intro h
    -- a variable that holds `-1` shows what a field without a number does
    have hlucky := h (-1) (by decide)
    cases ha : preprocessArg field opt with
    | none =>
      simp [argumentOf, ha] at hlucky
    | some a =>
      rw [argumentOf_slot ha rfl] at hlucky
      cases hchars : IntegralType.int.fromChars a with
      | none =>
        rw [IntegralType.parse, hchars, Option.getD_none, acuqire_neg_one] at hlucky
        simp [Outcome.bind] at hlucky
      | some n =>
        rw [IntegralType.parse, hchars, Option.getD_some] at hlucky
        obtain ⟨hbegins, hrange⟩ := IntegralType.fromChars_eq_some_iff.mp hchars
        have hn : Denotes .int opt field n := ⟨a, ha, hbegins⟩
        refine ⟨n, hn, hrange, ?_⟩
        rcases hlucky with ⟨i, obj, hi, _⟩ | ⟨e, he⟩
        · left
          rw [hn.unique hi]
          omega
        · right
          rw [← WeakSlots.acuqire_threw_iff]
          refine ⟨e, ?_⟩
          cases hacq : s.acuqire (BitVec.ofInt w n) <;> rw [hacq] at he <;> cases he
          rfl
  · rintro ⟨n, ⟨a, ha, hbegins⟩, hrange, hslot⟩ uninitialised _
    have hchars := IntegralType.fromChars_eq_some_iff.mpr ⟨hbegins, hrange⟩
    have hparse : IntegralType.int.parse a uninitialised = n := by
      rw [IntegralType.parse, hchars, Option.getD_some]
    rw [argumentOf_slot ha hparse]
    rcases hslot with ⟨hlo, hhi⟩ | ⟨i, hi, hnone⟩
    · obtain ⟨k, rfl⟩ := Int.eq_ofNat_of_zero_le hlo
      have hk : k < slotCnt.toNat := by omega
      have hacq := s.acuqire_slot ⟨k, hk⟩
      rw [BitVec.ofInt_natCast, hacq]
      cases hlock : s.lock ⟨k, hk⟩ with
      | some obj => exact Or.inl ⟨⟨k, hk⟩, obj, ⟨a, ha, hbegins⟩, hlock, rfl⟩
      | none     => exact Or.inr ⟨_, rfl⟩
    · right
      rw [← hi, WeakSlots.acuqire_slot, hnone]
      exact ⟨_, rfl⟩

/-! ### Every field -/

/-- **Numbers and slot ids are exact, or errors**, exactly for the fields that hold them: a
    field that begins with an integer of the type, and one that begins with the index of a slot
    or with a number that becomes the index of a dead slot. -/
theorem numbersExact_iff (opt : Options) (field : Text) :
    (∀ ty : IntegralType,
      IntegralExact ty opt field ↔ ∃ n, Denotes ty opt field n ∧ ty.InRange n) ∧
      ∀ (w : Nat) (slotCnt : BitVec w) (α : Type) (s : WeakSlots slotCnt α),
        SlotExact s opt field ↔ SlotField s opt field :=
  ⟨fun _ => integralExact_iff, fun _ _ _ _ => slotExact_iff⟩

/-- One slot with a live object. -/
def oneLive : WeakSlots (1#8) Unit := WeakSlots.init.store ⟨0, by decide⟩ 0#8 ()

/-- A field without a number gives what the variable holds, and `256` gives the object of the
    slot `0`. -/
theorem numbers_inexact :
    ¬ IntegralExact .int kDefaultOpt ['x'] ∧
      integralArgument .int kDefaultOpt 7 ['x'] = .returned 7 ∧
      ¬ SlotExact oneLive kDefaultOpt ['2', '5', '6'] ∧
      argumentOf (WeakSlots.lookup oneLive) kDefaultOpt 0 .slot ['2', '5', '6']
        = .returned (.slot 0) := by
  have hslot : argumentOf (WeakSlots.lookup oneLive) kDefaultOpt 0 .slot ['2', '5', '6']
      = .returned (.slot 0) := by decide
  refine ⟨fun h => ?_, rfl, fun h => ?_, hslot⟩
  · obtain ⟨n, ⟨a, ha, hn⟩, _⟩ := integralExact_iff.mp h
    cases ha
    rw [IntegralType.beginsWith_iff] at hn
    cases hn
  · rcases h 0 (by decide) with ⟨i, obj, ⟨a, ha, hn⟩, _⟩ | ⟨e, he⟩
    · cases ha
      rw [IntegralType.beginsWith_iff] at hn
      have hi : (256 : Int) = i.val := Option.some.inj hn
      have hlt : i.val < 1 := i.isLt
      omega
    · rw [hslot] at he
      cases he

end RtCharger.Net
