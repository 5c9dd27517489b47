import Mathlib.Data.List.Basic

namespace RingBuffer

/-!
# Ring buffers

A buffer of `n` cells that is written round and round: `rear` is the cell to write next, and
`fulled` tells that every cell was written once.  What was written last is `toList`, oldest
first, and it is the end of all that was ever written (`toList_pushAll`); a reader that goes
through the cells in the order of the array sees the same elements (`stored_perm`).
-/

/-- The cells, whether all of them were written, and the one to write next. -/
structure Ring (α : Type) (n : Nat) where
  cells : List α
  fulled : Bool
  rear : Nat
  length_cells : cells.length = n
  rear_lt : rear < n

variable {α : Type} {n : Nat}

/-- The end of a list, of at most `n` elements. -/
def lastN (n : Nat) (xs : List α) : List α := xs.drop (xs.length - n)

/-- Write one element. -/
def Ring.push (r : Ring α n) (x : α) : Ring α n where
  cells := r.cells.set r.rear x
  fulled := r.fulled || (r.rear + 1) % n == 0
  rear := (r.rear + 1) % n
  length_cells := by rw [List.length_set, r.length_cells]
  rear_lt := Nat.mod_lt _ (Nat.zero_lt_of_lt r.rear_lt)

/-- The number of cells that were written. -/
def Ring.size (r : Ring α n) : Nat := if r.fulled then n else r.rear

/-- What was written, in the order of the cells. -/
def Ring.stored (r : Ring α n) : List α := r.cells.take r.size

/-- What was written, oldest first. -/
def Ring.toList (r : Ring α n) : List α :=
  if r.fulled then r.cells.drop r.rear ++ r.cells.take r.rear else r.cells.take r.rear

/-- The order does not matter to a reader that counts. -/
theorem Ring.stored_perm (r : Ring α n) : r.stored.Perm r.toList := by
  unfold Ring.stored Ring.size Ring.toList
  split_ifs
  · rw [List.take_of_length_le (Nat.le_of_eq r.length_cells)]
    have happend : (r.cells.take r.rear ++ r.cells.drop r.rear).Perm
        (r.cells.drop r.rear ++ r.cells.take r.rear) := List.perm_append_comm
    rwa [List.take_append_drop] at happend
  · exact List.Perm.refl _

/-! ### The end of a list -/

theorem length_lastN (xs : List α) : (lastN n xs).length = min xs.length n := by
  rw [lastN, List.length_drop]
  omega

theorem lastN_of_le {xs : List α} (h : xs.length ≤ n) : lastN n xs = xs := by
  rw [lastN, Nat.sub_eq_zero_of_le h, List.drop_zero]

/-- Only the end of a list shows in the end of a longer one. -/
theorem lastN_append (xs ys : List α) : lastN n (lastN n xs ++ ys) = lastN n (xs ++ ys) := by
  have hdrop : lastN n xs ++ ys = (xs ++ ys).drop (xs.length - n) := by
    rw [lastN, List.drop_append_of_le_length (Nat.sub_le _ _)]
  rw [hdrop, lastN, lastN, List.drop_drop, List.length_drop, List.length_append]
  congr 1
  omega

/-- One more element, when there is no room for it. -/
theorem lastN_snoc {xs : List α} (h : xs.length = n) (hn : 0 < n) (x : α) :
    lastN n (xs ++ [x]) = xs.drop 1 ++ [x] := by
  have hlen : (xs ++ [x]).length - n = 1 := by
    rw [List.length_append, List.length_singleton]
    omega
  rw [lastN, hlen, List.drop_append_of_le_length (by omega)]

/-- A condition that stays true once it is true is counted up to `n` at the end of the list. -/
theorem le_countP_lastN_iff {xs : List α} {P : α → Bool} {k : Nat} (hk : k ≤ n)
    (hmono : xs.Pairwise fun x y => P x = true → P y = true) :
    k ≤ (lastN n xs).countP P ↔ k ≤ xs.countP P := by
  have hsplit := List.take_append_drop (xs.length - n) xs
  have hcount : xs.countP P
      = (xs.take (xs.length - n)).countP P + (lastN n xs).countP P := by
    rw [lastN, ← List.countP_append, hsplit]
  rw [← hsplit] at hmono
  rcases Nat.eq_zero_or_pos ((xs.take (xs.length - n)).countP P) with hzero | hpos
  · rw [hcount, hzero, Nat.zero_add]
  · obtain ⟨x, hx, hPx⟩ := List.countP_pos_iff.mp hpos
    have hall : ∀ y ∈ lastN n xs, P y = true := fun y hy =>
      (List.pairwise_append.mp hmono).2.2 x hx y hy hPx
    have hlong : 0 < xs.length - n := by
      have hlen := List.length_pos_of_mem hx
      rw [List.length_take] at hlen
      omega
    have hlen : (lastN n xs).countP P = n := by
      rw [List.countP_eq_length.mpr hall, length_lastN]
      omega
    omega

/-! ### Writing -/

theorem Ring.length_toList (r : Ring α n) : r.toList.length = r.size := by
  have hrear := r.rear_lt
  have hlen := r.length_cells
  unfold Ring.toList Ring.size
  split_ifs
  · rw [List.length_append, List.length_drop, List.length_take]
    omega
  · rw [List.length_take]
    omega

/-- **One element is written** behind the others, and takes the place of the oldest one. -/
theorem Ring.toList_push (r : Ring α n) (x : α) :
    (r.push x).toList = lastN n (r.toList ++ [x]) := by
  have hrear : r.rear < r.cells.length := by rw [r.length_cells]; exact r.rear_lt
  have hset : r.cells.set r.rear x = r.cells.take r.rear ++ [x] ++ r.cells.drop (r.rear + 1) := by
    rw [List.set_eq_take_append_cons_drop, if_pos hrear]
    simp
  have hfront : (r.cells.take r.rear ++ [x]).length = r.rear + 1 := by
    rw [List.length_append, List.length_take, List.length_singleton]
    omega
  -- what the cells hold from now on, whether or not `rear` goes round
  have hpush : (r.push x).toList
      = (if r.fulled then r.cells.drop (r.rear + 1) else []) ++ (r.cells.take r.rear ++ [x]) := by
    show (if (r.fulled || (r.rear + 1) % n == 0) = true then
        (r.cells.set r.rear x).drop ((r.rear + 1) % n) ++ (r.cells.set r.rear x).take ((r.rear + 1) % n)
      else (r.cells.set r.rear x).take ((r.rear + 1) % n)) = _
    rw [hset]
    have hlt := r.rear_lt
    have hlen := r.length_cells
    by_cases hround : r.rear + 1 = n
    · have hnil : r.cells.drop (r.rear + 1) = [] := List.drop_eq_nil_of_le (by omega)
      have hzero : (r.rear + 1) % n = 0 := by rw [hround, Nat.mod_self]
      rw [hzero, hnil]
      simp
    · have hmod : (r.rear + 1) % n = r.rear + 1 := Nat.mod_eq_of_lt (by omega)
      have hne : (r.rear + 1 == 0) = false := rfl
      rw [hmod, hne, Bool.or_false, List.take_left' hfront, List.drop_left' hfront]
      split_ifs <;> rfl
  rw [hpush]
  cases hfull : r.fulled with
  | false =>
    have hlist : r.toList = r.cells.take r.rear := by
      rw [Ring.toList, hfull]
      rfl
    rw [hlist, lastN_of_le (by rw [hfront]; exact r.rear_lt)]
    rfl
  | true =>
    have hlist : r.toList = r.cells.drop r.rear ++ r.cells.take r.rear := by
      rw [Ring.toList, hfull]
      rfl
    have hlen : r.toList.length = n := by rw [Ring.length_toList, Ring.size, hfull]; rfl
    rw [lastN_snoc hlen (Nat.zero_lt_of_lt r.rear_lt), hlist,
      List.drop_append_of_le_length (by rw [List.length_drop]; omega), List.drop_drop]
    simp

/-- **Many elements**: the buffer holds the last of them. -/
theorem Ring.toList_pushAll (r : Ring α n) (xs : List α) :
    (xs.foldl Ring.push r).toList = lastN n (r.toList ++ xs) := by
  induction xs generalizing r with
  | nil =>
    rw [List.foldl_nil, List.append_nil, lastN_of_le]
    rw [Ring.length_toList]
    have hrear := r.rear_lt
    unfold Ring.size
    split_ifs <;> omega
  | cons x xs ih =>
    rw [List.foldl_cons, ih, Ring.toList_push, lastN_append]
    simp

/-! ### What a cell holds -/

/-- `xs` was written to the buffer, which was empty: each of the last `n` elements is in the cell
    of its number. -/
structure Ring.Wrote (r : Ring α n) (xs : List α) : Prop where
  rear : r.rear = xs.length % n
  fulled : r.fulled = true ↔ n ≤ xs.length
  cells : ∀ j x, xs[j]? = some x → xs.length ≤ j + n → r.cells[j % n]? = some x

theorem Ring.Wrote.nil {r : Ring α n} (hrear : r.rear = 0) (hfulled : r.fulled = false) :
    r.Wrote [] where
  rear := by rw [hrear, List.length_nil, Nat.zero_mod]
  fulled := by
    have hn := r.rear_lt
    rw [hfulled, List.length_nil]
    constructor
    · exact fun h => nomatch h
    · intro hle
      omega
  cells := by
    intro j x hx _
    rw [List.getElem?_nil] at hx
    cases hx

/-- Among less than `n` numbers in a row no two have the same cell. -/
theorem mod_ne_of_lt {i j : Nat} (hlt : i < j) (hnear : j < i + n) : i % n ≠ j % n := by
  intro heq
  have hdvd : n ∣ j - i := Nat.dvd_of_mod_eq_zero (Nat.sub_mod_eq_zero_of_mod_eq heq.symm)
  have hle := Nat.le_of_dvd (Nat.sub_pos_of_lt hlt) hdvd
  omega

/-- Every cell of a full buffer is the one of some of the last `n` elements. -/
theorem exists_last {i N : Nat} (hi : i < n) (hN : n ≤ N) :
    ∃ j, j < N ∧ N ≤ j + n ∧ j % n = i := by
  have hdiv := Nat.div_add_mod (N - 1 - i) n
  have hlt := Nat.mod_lt (N - 1 - i) (Nat.zero_lt_of_lt hi)
  refine ⟨i + n * ((N - 1 - i) / n), by omega, by omega, ?_⟩
  rw [Nat.add_mul_mod_self_left, Nat.mod_eq_of_lt hi]

/-- **One more element** takes the cell of its number. -/
theorem Ring.Wrote.push {r : Ring α n} {xs : List α} (h : r.Wrote xs) (x : α) :
    (r.push x).Wrote (xs ++ [x]) where
  rear := by
    show (r.rear + 1) % n = _
    rw [h.rear, List.length_append, List.length_singleton, Nat.mod_add_mod]
  fulled := by
    -- `rear` comes back to 0 for the first time with the `n`-th element
    have hround : (xs.length % n + 1) % n = 0 ∧ ¬ n ≤ xs.length → n ≤ xs.length + 1 := by
      rintro ⟨hmod, hlt⟩
      rw [Nat.mod_eq_of_lt (Nat.lt_of_not_le hlt)] at hmod
      exact Nat.le_of_dvd (Nat.succ_pos _) (Nat.dvd_of_mod_eq_zero hmod)
    show (r.fulled || (r.rear + 1) % n == 0) = true ↔ _
    rw [Bool.or_eq_true, beq_iff_eq, h.fulled, h.rear, List.length_append,
      List.length_singleton]
    constructor
    · intro hor
      by_cases hlt : n ≤ xs.length
      · omega
      · exact hround ⟨hor.resolve_left hlt, hlt⟩
    · intro hle
      rcases Nat.lt_or_eq_of_le hle with hlt | heq
      · exact .inl (Nat.le_of_lt_succ hlt)
      · right
        rw [Nat.mod_add_mod, ← heq, Nat.mod_self]
  cells := by
    intro j y hy hnear
    rw [List.length_append, List.length_singleton] at hnear
    show (r.cells.set r.rear x)[j % n]? = some y
    rw [h.rear]
    rcases Nat.lt_trichotomy j xs.length with hlt | heq | hgt
    · -- the element of another cell
      rw [List.getElem?_append_left hlt] at hy
      rw [List.getElem?_set_ne (mod_ne_of_lt hlt (by omega)).symm]
      exact h.cells j y hy (by omega)
    · -- the new element
      subst heq
      rw [List.getElem?_concat_length] at hy
      have hcell : xs.length % n < r.cells.length := by
        rw [r.length_cells]
        exact Nat.mod_lt _ (Nat.zero_lt_of_lt r.rear_lt)
      rw [List.getElem?_set_self hcell, hy]
    · rw [List.getElem?_eq_none (by rw [List.length_append, List.length_singleton]; omega)] at hy
      cases hy

/-- **Many elements** written to an empty buffer. -/
theorem Ring.Wrote.pushAll {r : Ring α n} {xs : List α} (h : r.Wrote xs) (ys : List α) :
    (ys.foldl Ring.push r).Wrote (xs ++ ys) := by
  induction ys generalizing r xs with
  | nil =>
    rw [List.append_nil]
    exact h
  | cons y ys ih =>
    have hpush := ih (h.push y)
    rw [List.append_assoc, List.singleton_append] at hpush
    exact hpush

/-- As many cells were written as there are elements, up to all of them. -/
theorem Ring.Wrote.size_eq {r : Ring α n} {xs : List α} (h : r.Wrote xs) :
    r.size = min xs.length n := by
  have hfulled := h.fulled
  unfold Ring.size
  split_ifs with hf
  · rw [Nat.min_eq_right (hfulled.mp hf)]
  · have hlt : xs.length < n := by
      by_contra hle
      exact hf (hfulled.mpr (Nat.le_of_not_lt hle))
    rw [h.rear, Nat.mod_eq_of_lt hlt]
    omega

/-- **A cell that is read** was written, with one of the last `n` elements. -/
theorem Ring.Wrote.written {r : Ring α n} {xs : List α} (h : r.Wrote xs) {i : Nat}
    (hi : i < r.size) :
    ∃ j x, xs[j]? = some x ∧ xs.length ≤ j + n ∧ j % n = i ∧ r.cells[i]? = some x := by
  rw [h.size_eq] at hi
  -- before the buffer is full the cells are numbered like the elements
  have hlast : ∃ j, j < xs.length ∧ xs.length ≤ j + n ∧ j % n = i := by
    rcases Nat.lt_or_ge xs.length n with hlt | hge
    · exact ⟨i, by omega, by omega, Nat.mod_eq_of_lt (by omega)⟩
    · exact exists_last (by omega) hge
  obtain ⟨j, hj, hnear, hmod⟩ := hlast
  have hx : xs[j]? = some xs[j] := List.getElem?_eq_getElem hj
  have hcell := h.cells j _ hx hnear
  rw [hmod] at hcell
  exact ⟨j, xs[j], hx, hnear, hmod, hcell⟩

end RingBuffer
