import Mathlib.Data.Fin.Basic
import Mathlib.Data.List.FinRange

namespace OneHot

/-!
# One-bit masks

`oneHot b` is the word `1 << b`.  The lemmas say what or-ing it in, masking it out and
testing against it do to each single bit, so that a proof about flags kept in one word never
computes with the word.
-/

variable {w : Nat}

/-- The mask `1 << b`. -/
def oneHot (b : Fin w) : BitVec w := 1#w <<< b.val

/-- Bit `b` of a word. -/
def bit (x : BitVec w) (b : Fin w) : Bool := x.getLsbD b.val

/-- Two words with the same bits are equal. -/
theorem eq_of_bit_eq {x y : BitVec w} (h : ∀ b, bit x b = bit y b) : x = y :=
  BitVec.eq_of_getLsbD_eq fun i hi => h ⟨i, hi⟩

@[simp] theorem bit_oneHot (b c : Fin w) : bit (oneHot b) c = decide (c = b) := by
  have hw : 0 < w := Nat.lt_of_le_of_lt (Nat.zero_le _) b.isLt
  simp only [bit, oneHot, BitVec.getLsbD_shiftLeft, BitVec.getLsbD_one, c.isLt, hw,
    decide_true, Bool.true_and, Fin.ext_iff]
  by_cases h : c.val < b.val
  · simp [h, Nat.ne_of_lt h]
  · simp only [h, decide_false, Bool.not_false, Bool.true_and, decide_eq_decide]
    omega

@[simp] theorem bit_zero (c : Fin w) : bit (0#w) c = false := by simp [bit]

@[simp] theorem bit_allOnes (c : Fin w) : bit (BitVec.allOnes w) c = true := by simp [bit]

@[simp] theorem bit_or (x y : BitVec w) (c : Fin w) : bit (x ||| y) c = (bit x c || bit y c) := by
  simp [bit]

@[simp] theorem bit_and (x y : BitVec w) (c : Fin w) :
    bit (x &&& y) c = (bit x c && bit y c) := by
  simp [bit]

@[simp] theorem bit_not (x : BitVec w) (c : Fin w) : bit (~~~x) c = !bit x c := by
  simp [bit, c.isLt]

/-- Different bits have different masks. -/
theorem oneHot_inj {b c : Fin w} : oneHot b = oneHot c ↔ b = c := by
  constructor
  · intro h
    have hc : bit (oneHot b) c = bit (oneHot c) c := by rw [h]
    simpa [eq_comm] using hc
  · rintro rfl; rfl

/-- A one-bit mask is never the empty mask. -/
theorem oneHot_ne_zero (b : Fin w) : oneHot b ≠ 0#w := by
  intro h
  have hb : bit (oneHot b) b = bit (0#w) b := by rw [h]
  simp at hb

/-- The test `(x & (1 << b)) == (1 << b)` reads bit `b`. -/
theorem and_oneHot_eq_iff (x : BitVec w) (b : Fin w) :
    oneHot b &&& x = oneHot b ↔ bit x b = true := by
  constructor
  · intro h
    have hb : bit (oneHot b &&& x) b = bit (oneHot b) b := by rw [h]
    simpa using hb
  · intro h
    apply eq_of_bit_eq
    intro c
    by_cases hc : c = b <;> simp_all

/-- Or-ing in a clear bit and masking it out again changes nothing. -/
theorem or_and_not_oneHot {x : BitVec w} {b : Fin w} (h : bit x b = false) :
    (x ||| oneHot b) &&& ~~~oneHot b = x := by
  apply eq_of_bit_eq
  intro c
  by_cases hc : c = b <;> simp_all

/-- A word is all ones iff every bit is set. -/
theorem eq_allOnes_iff (x : BitVec w) : x = BitVec.allOnes w ↔ ∀ b, bit x b = true := by
  constructor
  · rintro rfl b; simp
  · intro h
    apply eq_of_bit_eq
    intro b
    simp [h b]

/-- A word is zero iff no bit is set. -/
theorem eq_zero_iff (x : BitVec w) : x = 0#w ↔ ∀ b, bit x b = false := by
  constructor
  · rintro rfl b; simp
  · intro h
    apply eq_of_bit_eq
    intro b
    simp [h b]

/-! ### The first clear bit -/

/-- The lowest clear bit of a word, if there is one. -/
def firstClear (x : BitVec w) : Option (Fin w) :=
  (List.finRange w).find? fun b => !bit x b

/-- The bit found is clear. -/
theorem firstClear_clear {x : BitVec w} {b : Fin w} (h : firstClear x = some b) :
    bit x b = false := by
  have hb := List.find?_some h
  simpa using hb

/-- A word that is not all ones has a clear bit. -/
theorem firstClear_isSome {x : BitVec w} (h : x ≠ BitVec.allOnes w) :
    ∃ b, firstClear x = some b := by
  by_contra hnone
  have hf : firstClear x = none := by
    cases hx : firstClear x with
    | none => rfl
    | some b => exact absurd ⟨b, hx⟩ hnone
  apply h
  rw [eq_allOnes_iff]
  intro b
  have hb := List.find?_eq_none.mp hf b (List.mem_finRange b)
  simpa using hb

end OneHot
