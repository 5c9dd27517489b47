import Mathlib.Data.List.Basic
import Mathlib.Logic.Function.Basic

namespace RingQueue

/-!
# Queues between two indices of an array

The elements of a queue stand in an array of `n` cells that is used round and round: from the
index where the next one is taken to the index where the next one is put.  If both are the same
the queue is empty, so it never holds `n` elements.

* `next`, `length`, `content` — the index that follows, and what the queue holds;
* `content_put`, `content_take` — one element more, and one less.
-/

variable {α : Type} {n get put : Nat} {cells : Nat → α}

/-- The next index. -/
def next (n i : Nat) : Nat := if n ≤ i + 1 then 0 else i + 1

/-- The number of elements between the two indices. -/
def length (n get put : Nat) : Nat := if get ≤ put then put - get else n - (get - put)

/-- The elements, from the one that is taken next. -/
def content (n : Nat) (cells : Nat → α) (get put : Nat) : List α :=
  (List.range (length n get put)).map fun k => cells ((get + k) % n)

theorem next_lt (hn : 0 < n) (i : Nat) : next n i < n := by
  unfold next
  split_ifs <;> omega

theorem next_ne (hn : 1 < n) (i : Nat) : next n i ≠ i := by
  unfold next
  split_ifs <;> omega

theorem next_eq_mod {i : Nat} (hi : i < n) : next n i = (i + 1) % n := by
  unfold next
  split_ifs with hlast
  · have heq : i + 1 = n := by omega
    rw [heq, Nat.mod_self]
  · rw [Nat.mod_eq_of_lt (by omega)]

theorem length_lt (hget : get < n) (hput : put < n) : length n get put < n := by
  unfold length
  split_ifs <;> omega

theorem length_eq_zero_iff (hget : get < n) : length n get put = 0 ↔ get = put := by
  unfold length
  split_ifs <;> omega

@[simp]
theorem length_content : (content n cells get put).length = length n get put := by
  rw [content, List.length_map, List.length_range]

theorem content_eq_nil_iff (hget : get < n) : content n cells get put = [] ↔ get = put := by
  rw [← List.length_eq_zero_iff, length_content, length_eq_zero_iff hget]

theorem length_put (hget : get < n) (hput : put < n) (hroom : next n put ≠ get) :
    length n get (next n put) = length n get put + 1 := by
  revert hroom
  unfold next length
  split_ifs <;> omega

theorem length_take (hget : get < n) (hput : put < n) (hne : get ≠ put) :
    length n get put = length n (next n get) put + 1 := by
  unfold next length
  split_ifs <;> omega

/-- The cell to write next is where the queue ends. -/
theorem add_length_mod (hget : get < n) (hput : put < n) :
    (get + length n get put) % n = put := by
  unfold length
  split_ifs with hle
  · rw [show get + (put - get) = put by omega, Nat.mod_eq_of_lt hput]
  · rw [show get + (n - (get - put)) = put + n by omega, Nat.add_mod_right, Nat.mod_eq_of_lt hput]

/-- No cell of the queue is the one to write next. -/
theorem add_mod_ne {k : Nat} (hget : get < n) (hput : put < n) (hk : k < length n get put) :
    (get + k) % n ≠ put := by
  revert hk
  unfold length
  rcases Nat.lt_or_ge (get + k) n with hlt | hge
  · rw [Nat.mod_eq_of_lt hlt]
    split_ifs <;> omega
  · intro hk
    have hmod : (get + k) % n = get + k - n := by
      have hlen : k < n := by split_ifs at hk <;> omega
      rw [Nat.mod_eq_sub_mod hge, Nat.mod_eq_of_lt (by omega)]
    rw [hmod]
    split_ifs at hk <;> omega

/-- **One more element**, if there is room for it. -/
theorem content_put (hget : get < n) (hput : put < n) (hroom : next n put ≠ get) (x : α) :
    content n (Function.update cells put x) get (next n put) = content n cells get put ++ [x] := by
  rw [content, length_put hget hput hroom, List.range_succ, List.map_append, List.map_singleton,
    add_length_mod hget hput, Function.update_self, content]
  congr 1
  refine List.map_congr_left fun k hk => ?_
  rw [Function.update_of_ne (add_mod_ne hget hput (List.mem_range.mp hk))]

/-- **One element less**: the one that was put first. -/
theorem content_take (hget : get < n) (hput : put < n) (hne : get ≠ put) :
    content n cells get put = cells get :: content n cells (next n get) put := by
  rw [content, length_take hget hput hne, List.range_succ_eq_map, List.map_cons, Nat.add_zero,
    Nat.mod_eq_of_lt hget, List.map_map, content]
  congr 1
  refine List.map_congr_left fun k _ => ?_
  rw [Function.comp_apply, next_eq_mod hget, Nat.mod_add_mod, Nat.add_right_comm, Nat.add_assoc]

/-- An element is put where there is no room for it: the one that would be taken next is lost. -/
theorem content_put_full (hget : get < n) (hput : put < n) (hn : 1 < n)
    (hfull : next n put = get) (x : α) :
    content n (Function.update cells put x) (next n get) (next n put)
      = (content n cells get put).tail ++ [x] := by
  have hne : get ≠ put := fun h => next_ne hn put (hfull.trans h)
  have hroom : next n put ≠ next n get := by
    rw [hfull]
    exact (next_ne hn get).symm
  rw [content_put (next_lt (Nat.zero_lt_of_lt hget) get) hput hroom, content_take hget hput hne,
    List.tail_cons]

/-- There is no room exactly if one element less than there are cells is in the queue. -/
theorem next_eq_iff (hget : get < n) (hput : put < n) :
    next n put = get ↔ length n get put + 1 = n := by
  unfold next length
  split_ifs <;> omega

end RingQueue
