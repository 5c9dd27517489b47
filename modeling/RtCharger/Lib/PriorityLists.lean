import Mathlib.Data.List.Nodup
import Mathlib.Data.List.Basic
import Mathlib.Logic.Function.Basic

namespace PriorityLists

/-!
# Lists by priority

The elements of a set, each in the list of its priority, with a bitmap of the priorities whose
list is not empty.

* `ffs` — the place of the lowest set bit, counted from one;
* `Indexed` — the lists hold the elements, and the bitmap tells which of them are empty;
* `Indexed.insert`, `Indexed.erase` — one element more, and one less;
* `Indexed.lowest` — the lowest bit leads to an element of the lowest priority.
-/

variable {α : Type} {w : Nat}

/-- The lowest set bit, counted from one, or zero if no bit is set. -/
def ffs (v : BitVec w) : Nat :=
  match (List.range w).find? v.getLsbD with
  | some i => i + 1
  | none   => 0

theorem ffs_spec {v : BitVec w} (h : v ≠ 0#w) :
    ∃ p, ffs v = p + 1 ∧ p < w ∧ v.getLsbD p = true ∧ ∀ q < p, v.getLsbD q = false := by
  unfold ffs
  cases hfind : (List.range w).find? v.getLsbD with
  | none =>
    refine absurd (BitVec.eq_of_getLsbD_eq fun i hi => ?_) h
    rw [BitVec.getLsbD_zero]
    simpa using List.find?_eq_none.mp hfind i (List.mem_range.mpr hi)
  | some p =>
    obtain ⟨hbit, as, bs, hsplit, hbefore⟩ := List.find?_eq_some_iff_append.mp hfind
    refine ⟨p, rfl, List.mem_range.mp (List.mem_of_find?_eq_some hfind), hbit, fun q hq => ?_⟩
    have hlen : as.length = p := by
      have hget : (List.range w)[as.length]? = some p := by
        rw [hsplit, List.getElem?_append_right (Nat.le_refl _), Nat.sub_self]
        rfl
      obtain ⟨hlt, heq⟩ := List.getElem?_eq_some_iff.mp hget
      rwa [List.getElem_range] at heq
    have hmem : q ∈ as := by
      have hget : (List.range w)[q]? = some q :=
        List.getElem?_range (Nat.lt_trans hq (List.mem_range.mp (List.mem_of_find?_eq_some hfind)))
      rw [hsplit, List.getElem?_append_left (by omega)] at hget
      exact List.mem_of_getElem? hget
    simpa using hbefore q hmem

variable [DecidableEq α]

/-- The lists hold the elements of `R`, each in the list of its priority, and a bit is set if its
    list is not empty. -/
structure Indexed (table : Nat → List α) (group : BitVec w) (prio : α → Nat) (R : α → Prop) :
    Prop where
  nodup : ∀ p, (table p).Nodup
  mem : ∀ t p, t ∈ table p ↔ R t ∧ prio t = p
  lt : ∀ t, R t → prio t < w
  bit : ∀ p, p < w → (group.getLsbD p = true ↔ table p ≠ [])

variable {table : Nat → List α} {group : BitVec w} {prio : α → Nat} {R : α → Prop} {t : α}

omit [DecidableEq α] in
/-- Only the priorities of the elements matter, and what is in the set. -/
theorem Indexed.congr (h : Indexed table group prio R) {prio' : α → Nat} {R' : α → Prop}
    (hR : ∀ t, R' t ↔ R t) (hprio : ∀ t, R t → prio' t = prio t) :
    Indexed table group prio' R' := by
  refine ⟨h.nodup, fun t p => ?_, fun t ht => ?_, h.bit⟩
  · rw [h.mem, hR]
    exact and_congr_right fun ht => by rw [hprio t ht]
  · rw [hprio t ((hR t).mp ht)]
    exact h.lt t ((hR t).mp ht)

omit [DecidableEq α] in
theorem Indexed.empty : Indexed (fun _ => []) (0#w) prio fun _ : α => False :=
  ⟨fun _ => List.nodup_nil, by simp, nofun, by simp⟩

omit [DecidableEq α] in
/-- **One element more**, at the end of its list. -/
theorem Indexed.insert (h : Indexed table group prio R) (ht : ¬R t) (hlt : prio t < w) :
    Indexed (Function.update table (prio t) (table (prio t) ++ [t])) (group ||| 1#w <<< prio t)
      prio fun u => u = t ∨ R u := by
  refine ⟨fun p => ?_, fun u p => ?_, fun u hu => ?_, fun p hp => ?_⟩
  · by_cases hpt : p = prio t
    · subst hpt
      rw [Function.update_self]
      refine (h.nodup _).append (List.nodup_singleton t) ?_
      rw [List.disjoint_singleton]
      exact fun hmem => ht ((h.mem _ _).mp hmem).1
    · rw [Function.update_of_ne hpt]
      exact h.nodup p
  · by_cases hpt : p = prio t
    · subst hpt
      rw [Function.update_self, List.mem_append, List.mem_singleton, h.mem]
      constructor
      · rintro (⟨hu, hpu⟩ | rfl)
        · exact ⟨.inr hu, hpu⟩
        · exact ⟨.inl rfl, rfl⟩
      · rintro ⟨rfl | hu, hpu⟩
        · exact .inr rfl
        · exact .inl ⟨hu, hpu⟩
    · rw [Function.update_of_ne hpt, h.mem]
      constructor
      · rintro ⟨hu, hpu⟩
        exact ⟨.inr hu, hpu⟩
      · rintro ⟨rfl | hu, hpu⟩
        · exact absurd hpu.symm hpt
        · exact ⟨hu, hpu⟩
  · rcases hu with rfl | hu
    · exact hlt
    · exact h.lt u hu
  · rw [BitVec.getLsbD_or, Bool.or_eq_true, h.bit p hp]
    have hone : (1#w <<< prio t).getLsbD p = true ↔ p = prio t := by
      rw [← BitVec.twoPow_eq, BitVec.getLsbD_twoPow]
      simp [hlt, eq_comm]
    rw [hone]
    by_cases hpt : p = prio t
    · subst hpt
      simp
    · rw [Function.update_of_ne hpt]
      simp [hpt]

/-- **One element less**; the bit is cleared if its list becomes empty. -/
theorem Indexed.erase (h : Indexed table group prio R) (t : α) (hlt : prio t < w) :
    Indexed (fun p => (table p).erase t)
      (if (table (prio t)).erase t = [] then group &&& ~~~(1#w <<< prio t) else group)
      prio fun u => R u ∧ u ≠ t := by
  have hother : ∀ p, p ≠ prio t → (table p).erase t = table p := by
    intro p hp
    refine List.erase_of_not_mem fun hmem => hp ((h.mem t p).mp hmem).2.symm
  refine ⟨fun p => (h.nodup p).erase t, fun u p => ?_, fun u hu => h.lt u hu.1, fun p hp => ?_⟩
  · rw [(h.nodup p).mem_erase_iff, h.mem]
    tauto
  · by_cases hpt : p = prio t
    · subst hpt
      split_ifs with hnil
      · simp [hnil, ← BitVec.twoPow_eq, hlt]
      · rw [h.bit _ hp]
        refine ⟨fun _ => hnil, fun _ hempty => hnil ?_⟩
        rw [hempty]
        rfl
    · rw [hother p hpt, ← h.bit p hp]
      split_ifs
      · have hone : (1#w <<< prio t).getLsbD p = false := by
          rw [← BitVec.twoPow_eq, BitVec.getLsbD_twoPow]
          simp [Ne.symm hpt]
        rw [BitVec.getLsbD_and, BitVec.getLsbD_not, hone]
        simp [hp]
      · exact Iff.rfl

omit [DecidableEq α] in
/-- The bitmap is zero exactly if the set is empty. -/
theorem Indexed.group_eq_zero_iff (h : Indexed table group prio R) :
    group = 0#w ↔ ∀ t, ¬R t := by
  constructor
  · rintro rfl t ht
    have hmem := (h.mem t (prio t)).mpr ⟨ht, rfl⟩
    have hbit := (h.bit (prio t) (h.lt t ht)).mpr (List.ne_nil_of_mem hmem)
    simp at hbit
  · intro hnone
    refine BitVec.eq_of_getLsbD_eq fun p hp => ?_
    rw [BitVec.getLsbD_zero]
    by_contra hbit
    obtain ⟨t, ht⟩ := List.exists_mem_of_ne_nil _ ((h.bit p hp).mp (by simpa using hbit))
    exact hnone t ((h.mem t p).mp ht).1

omit [DecidableEq α] in
/-- **The lowest bit** leads to the first element of the list of the lowest priority there is. -/
theorem Indexed.lowest (h : Indexed table group prio R) (hne : group ≠ 0#w) :
    ∃ t rest, table (ffs group - 1) = t :: rest ∧ R t ∧ prio t = ffs group - 1 ∧
      ∀ u, R u → prio t ≤ prio u := by
  obtain ⟨p, hffs, hp, hbit, hlow⟩ := ffs_spec hne
  have hp' : ffs group - 1 = p := by omega
  rw [hp']
  obtain ⟨t, rest, htable⟩ := List.exists_cons_of_ne_nil ((h.bit p hp).mp hbit)
  obtain ⟨ht, hprio⟩ := (h.mem t p).mp (by rw [htable]; exact List.mem_cons_self)
  refine ⟨t, rest, htable, ht, hprio, fun u hu => ?_⟩
  rw [hprio]
  by_contra hlt
  have hmem := (h.mem u (prio u)).mpr ⟨hu, rfl⟩
  have hset := (h.bit (prio u) (h.lt u hu)).mpr (List.ne_nil_of_mem hmem)
  rw [hlow (prio u) (by omega)] at hset
  cases hset

end PriorityLists
