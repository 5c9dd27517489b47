import Mathlib.Algebra.Ring.Nat
import Mathlib.Logic.Function.Basic

namespace ByteMemory

/-!
# A memory of bytes

Addresses are numbers, and a number of several bytes is stored with its lowest byte first.

* `load`, `store` — a number of `n` bytes;
* `load_store`, `load_store_apart` — what is read after a store, there and elsewhere;
* `copy` — `memcpy`.
-/

abbrev Memory : Type := Nat → UInt8

/-- The number in the `n` bytes from `a` on. -/
def load (m : Memory) : (a n : Nat) → Nat
  | _, 0     => 0
  | a, n + 1 => (m a).toNat + 256 * load m (a + 1) n

/-- Write the lowest `n` bytes of a number. -/
def store (m : Memory) : (a n v : Nat) → Memory
  | _, 0, _     => m
  | a, n + 1, v => store (Function.update m a (UInt8.ofNat v)) (a + 1) n (v / 256)

/-- Copy `n` bytes, the first one first. -/
def copy (m : Memory) : (dst src n : Nat) → Memory
  | _, _, 0         => m
  | dst, src, n + 1 => copy (Function.update m dst (m src)) (dst + 1) (src + 1) n

variable {m m' : Memory} {a b n k v : Nat}

/-- A store does not touch the other bytes. -/
theorem store_apply (h : b < a ∨ a + n ≤ b) : store m a n v b = m b := by
  induction n generalizing m a v with
  | zero => rfl
  | succ n ih =>
    rw [store, ih (by omega), Function.update_of_ne (by omega)]

/-- A load depends on its own bytes only. -/
theorem load_congr (h : ∀ i, a ≤ i → i < a + n → m i = m' i) : load m a n = load m' a n := by
  induction n generalizing a with
  | zero => rfl
  | succ n ih =>
    rw [load, load, h a (by omega) (by omega), ih fun i hi hlt => h i (by omega) (by omega)]

/-- **What was stored is read**, if it has room. -/
theorem load_store (hv : v < 256 ^ n) : load (store m a n v) a n = v := by
  induction n generalizing m a v with
  | zero =>
    rw [Nat.pow_zero, Nat.lt_one_iff] at hv
    exact hv.symm
  | succ n ih =>
    rw [Nat.pow_succ] at hv
    have hfirst : store (Function.update m a (UInt8.ofNat v)) (a + 1) n (v / 256) a
        = UInt8.ofNat v := by
      rw [store_apply (by omega), Function.update_self]
    rw [store, load, hfirst, ih (by omega), UInt8.toNat_ofNat']
    omega

/-- Elsewhere nothing changes. -/
theorem load_store_apart (h : b + k ≤ a ∨ a + n ≤ b) :
    load (store m a n v) b k = load m b k :=
  load_congr fun _ _ _ => store_apply (by omega)

/-- A copy does not touch other bytes. -/
theorem copy_apply {dst src : Nat} (h : b < dst ∨ dst + n ≤ b) :
    copy m dst src n b = m b := by
  induction n generalizing m dst src with
  | zero => rfl
  | succ n ih =>
    rw [copy, ih (by omega), Function.update_of_ne (by omega)]

/-- **The copy has the bytes**, if it does not overlap what is copied. -/
theorem copy_add {dst src i : Nat} (h : dst + n ≤ src ∨ src + n ≤ dst) (hi : i < n) :
    copy m dst src n (dst + i) = m (src + i) := by
  induction n generalizing m dst src i with
  | zero => exact absurd hi (Nat.not_lt_zero i)
  | succ n ih =>
    cases i with
    | zero =>
      show copy (Function.update m dst (m src)) (dst + 1) (src + 1) n dst = m src
      rw [copy_apply (by omega), Function.update_self]
    | succ i =>
      have hrest : copy (Function.update m dst (m src)) (dst + 1) (src + 1) n (dst + 1 + i)
          = Function.update m dst (m src) (src + 1 + i) := ih (by omega) (by omega)
      rw [Function.update_of_ne (by omega), Nat.add_right_comm, Nat.add_right_comm src] at hrest
      exact hrest

end ByteMemory
