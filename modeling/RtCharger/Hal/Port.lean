import Mathlib.Algebra.Ring.Nat
import Mathlib.Algebra.Ring.Int.Defs

namespace RtCharger.Hal

/-!
# Port numbers

A port is numbered from 0 (`RawPort`) or from 1 (`AbsPort`), in 8 bits either way, and each
number converts to the other by one more or one less, which wraps around.

* `AbsPort.validate_iff` — the numbers from 1 to `kPortNum` are the valid ones;
* `AbsPort.validate_ofInt_iff` — which of the integers become a valid port;
* `Port.to_of_validate` — a valid port is dispatched to its own instance, and no other is.
-/

/-- A port counted from 0. -/
structure RawPort where
  value : UInt8
deriving DecidableEq, Repr

/-- A port counted from 1. -/
structure AbsPort where
  value : UInt8
deriving DecidableEq, Repr

/-- `RawPort::operator AbsPort`. -/
def RawPort.toAbs (p : RawPort) : AbsPort := ⟨p.value + 1⟩

/-- `AbsPort::operator RawPort`. -/
def AbsPort.toRaw (p : AbsPort) : RawPort := ⟨p.value - 1⟩

/-- `RawPort(n)`: the number is converted to `uint8_t`. -/
def RawPort.ofInt (n : Int) : RawPort := ⟨UInt8.ofInt n⟩

/-- `AbsPort(n)`. -/
def AbsPort.ofInt (n : Int) : AbsPort := ⟨UInt8.ofInt n⟩

section Bsp

variable (kPortNum : Nat)

/-- `RawPort::validate`. -/
def RawPort.validate (p : RawPort) : Bool := decide (0 ≤ p.value.toNat ∧ p.value.toNat < kPortNum)

/-- `AbsPort::validate`. -/
def AbsPort.validate (p : AbsPort) : Bool := p.toRaw.validate kPortNum

/-- The recursion of `Port::select` and `Port::to` from `N` on, while `left` of the `kPortNum`
    numbers are left. -/
def Port.search {α : Type} (f : RawPort → α) (p : RawPort) : (left N : Nat) → Option α
  | 0, _        => none
  | left + 1, N =>
    if N = p.value.toNat then some (f (RawPort.ofInt N)) else Port.search f p left (N + 1)

/-- `Port::select`: what `f` makes of the port, or nothing if there is no such port. -/
def Port.select {α : Type} (f : RawPort → α) (p : RawPort) : Option α :=
  Port.search f p kPortNum 0

/-- `Port::to`: the instance for the port, or null if there is no such port. -/
def Port.to {α : Type} (get : AbsPort → α) (p : RawPort) : Option α :=
  Port.search (fun p => get p.toAbs) p kPortNum 0

end Bsp

/-! ### Conversions -/

@[simp] theorem AbsPort.toAbs_toRaw (p : AbsPort) : p.toRaw.toAbs = p := by
  rw [toRaw, RawPort.toAbs, UInt8.sub_add_cancel]

@[simp] theorem RawPort.toRaw_toAbs (p : RawPort) : p.toAbs.toRaw = p := by
  rw [toAbs, AbsPort.toRaw, UInt8.add_sub_cancel]

/-- The conversion keeps the remainder of the division by 256. -/
theorem toNat_ofInt (n : Int) : ((UInt8.ofInt n).toNat : Int) = n % 256 := by
  rw [UInt8.ofInt, UInt8.toNat_ofNat']
  omega

theorem AbsPort.toNat_ofInt (n : Int) : ((AbsPort.ofInt n).value.toNat : Int) = n % 256 :=
  Hal.toNat_ofInt n

/-- A number of a port converts to itself. -/
theorem RawPort.ofInt_toNat (p : RawPort) : RawPort.ofInt p.value.toNat = p := by
  have hval : UInt8.ofInt p.value.toNat = p.value := by
    apply UInt8.toNat_inj.mp
    have hmod := Hal.toNat_ofInt p.value.toNat
    have hlt := p.value.toNat_lt
    omega
  rw [ofInt, hval]

/-- One less, or the largest number there is. -/
theorem AbsPort.toNat_toRaw (p : AbsPort) :
    p.toRaw.value.toNat = (p.value.toNat + 255) % 256 := by
  rw [toRaw, UInt8.toNat_sub]
  show (256 - 1 + p.value.toNat) % 256 = _
  omega

/-! ### Valid ports -/

variable {kPortNum : Nat}

/-- **Valid ports** are those from 1 to `kPortNum`. -/
theorem AbsPort.validate_iff (hnum : kPortNum ≤ 255) (p : AbsPort) :
    p.validate kPortNum = true ↔ 1 ≤ p.value.toNat ∧ p.value.toNat ≤ kPortNum := by
  have hlt : p.value.toNat < 256 := p.value.toNat_lt
  rw [validate, RawPort.validate, decide_eq_true_iff, toNat_toRaw]
  omega

/-- An integer becomes a valid port if its remainder is one. -/
theorem AbsPort.validate_ofInt_iff (hnum : kPortNum ≤ 255) (n : Int) :
    (AbsPort.ofInt n).validate kPortNum = true ↔ 1 ≤ n % 256 ∧ n % 256 ≤ kPortNum := by
  have hmod := toNat_ofInt n
  rw [validate_iff hnum]
  omega

/-! ### Dispatching -/

theorem Port.search_eq {α : Type} (f : RawPort → α) (p : RawPort) (left N : Nat) :
    Port.search f p left N
      = if N ≤ p.value.toNat ∧ p.value.toNat < N + left then some (f p) else none := by
  induction left generalizing N with
  | zero =>
    rw [Port.search, if_neg]
    omega
  | succ left ih =>
    rw [Port.search, ih]
    by_cases h : N = p.value.toNat
    · rw [if_pos h, if_pos (by omega), h, RawPort.ofInt_toNat]
    · rw [if_neg h]
      congr 1
      apply propext
      omega

/-- `select` calls its function with the port itself. -/
theorem Port.select_eq {α : Type} (f : RawPort → α) (p : RawPort) :
    Port.select kPortNum f p = if p.validate kPortNum then some (f p) else none := by
  rw [Port.select, Port.search_eq, RawPort.validate, Nat.zero_add]
  simp only [decide_eq_true_iff]

/-- **A valid port** is dispatched to its own instance. -/
theorem Port.to_of_validate {α : Type} (get : AbsPort → α) {p : AbsPort}
    (h : p.validate kPortNum = true) : Port.to kPortNum get p.toRaw = some (get p) := by
  have hto : Port.to kPortNum get p.toRaw
      = Port.select kPortNum (fun p => get p.toAbs) p.toRaw := rfl
  rw [hto, Port.select_eq, ← AbsPort.validate, if_pos h, AbsPort.toAbs_toRaw]

end RtCharger.Hal
