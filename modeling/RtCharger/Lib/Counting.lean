import Mathlib.Algebra.BigOperators.Group.Finset.Piecewise
import Mathlib.Algebra.Order.BigOperators.Group.Finset
import Mathlib.Data.Fintype.BigOperators

namespace Counting

/-!
# Counting threads

Each thread `i` is at some place `f i`; the places have weights, and `total g f` is the weight
of all threads together.  With a weight that is `0` or `1` this counts the threads at some of
the places.

* `total_update` — how a total changes when one thread moves;
* `total_eq_zero` — nobody has a weight;
* `total_le_one` — a total is at most `1` when at most one thread has a weight.
-/

variable {ι α : Type} [Fintype ι] {g : α → Nat} {f : ι → α}

/-- The weight of all threads together. -/
def total (g : α → Nat) (f : ι → α) : Nat := ∑ i, g (f i)

theorem total_eq_zero (h : ∀ i, g (f i) = 0) : total g f = 0 :=
  Finset.sum_eq_zero fun i _ => h i

variable [DecidableEq ι]

/-- **A thread moves**: its old weight is exchanged for its new one. -/
theorem total_update (g : α → Nat) (f : ι → α) (i : ι) (x : α) :
    total g (Function.update f i x) + g (f i) = total g f + g x := by
  have hmem := Finset.mem_univ i
  have hsame : ∀ j ∈ Finset.univ.erase i, g (Function.update f i x j) = g (f j) := by
    intro j hj
    rw [Function.update_of_ne (Finset.ne_of_mem_erase hj)]
  have hnew := Finset.add_sum_erase Finset.univ (fun j => g (Function.update f i x j)) hmem
  have hold := Finset.add_sum_erase Finset.univ (fun j => g (f j)) hmem
  simp only [Function.update_self] at hnew
  rw [Finset.sum_congr rfl hsame] at hnew
  simp only [total]
  omega

/-- At most one thread has a weight, and it is at most `1`. -/
theorem total_le_one (i : ι) (hi : g (f i) ≤ 1) (h : ∀ j, j ≠ i → g (f j) = 0) :
    total g f ≤ 1 := by
  have hrest : ∑ j ∈ Finset.univ.erase i, g (f j) = 0 :=
    Finset.sum_eq_zero fun j hj => h j (Finset.ne_of_mem_erase hj)
  have hsum := Finset.add_sum_erase Finset.univ (fun j => g (f j)) (Finset.mem_univ i)
  simp only [total]
  omega

end Counting
