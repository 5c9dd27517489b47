import Mathlib.Data.Nat.Bitwise

namespace SerialBits

/-!
# Bytes as bits

* `bitsOf`, `ofBits` — the bits of a byte, the lowest first, and the byte of some bits;
* `ofBits_bitsOf` — the one undoes the other;
* `and_shift_ne_zero` — the test of a bit with a mask.
-/

/-- The bits of a byte, the lowest first. -/
def bitsOf (data : UInt8) : List Bool := (List.range 8).map data.toNat.testBit

/-- Eight bits, the lowest first. -/
def ofBits (bits : List Bool) : UInt8 := UInt8.ofNat (Nat.ofBits fun i : Fin 8 => bits.getD i false)

theorem ofBits_bitsOf (data : UInt8) : ofBits (bitsOf data) = data := by
  have hbits : (fun i : Fin 8 => (bitsOf data).getD i false)
      = fun i : Fin 8 => data.toNat.testBit i := by
    funext i
    rw [bitsOf, List.getD_eq_getElem?_getD, List.getElem?_map,
      List.getElem?_range i.isLt]
    rfl
  rw [ofBits, hbits, Nat.ofBits_testBit, Nat.mod_eq_of_lt data.toNat_lt]
  exact UInt8.ofNat_toNat

/-- A mask with one bit. -/
theorem and_shift_ne_zero (n i : Nat) : (n &&& 1 <<< i != 0) = n.testBit i := by
  rw [Nat.one_shiftLeft, Nat.and_two_pow]
  cases n.testBit i <;> simp

end SerialBits
