import Mathlib.Data.List.Nodup

namespace OrderedDict

/-!
# Dictionaries that keep their order

A dictionary is the list of its items, in the order in which their keys came, and no key comes
twice.

* `Dict.modify` — the value of a key is changed, after it was set if the key is new;
* `Dict.get_modify` — what that does to each key;
* `Dict.mem_items_iff` — the items are the keys with their values.
-/

/-- A dictionary. -/
structure Dict (κ α : Type) where
  items : List (κ × α)
  nodup : (items.map Prod.fst).Nodup

namespace Dict

variable {κ α : Type}

/-- The dictionary without items. -/
def empty : Dict κ α := ⟨[], List.nodup_nil⟩

variable [DecidableEq κ]

/-- The first item of the key is changed, or a new one is put behind the others. -/
def modifyItems (k : κ) (init : α) (f : α → α) : List (κ × α) → List (κ × α)
  | []              => [(k, f init)]
  | (k', a) :: rest => if k' = k then (k', f a) :: rest else (k', a) :: modifyItems k init f rest

theorem keys_modifyItems (k : κ) (init : α) (f : α → α) (items : List (κ × α)) :
    (modifyItems k init f items).map Prod.fst
      = if k ∈ items.map Prod.fst then items.map Prod.fst else items.map Prod.fst ++ [k] := by
  induction items with
  | nil => rfl
  | cons item rest ih =>
    obtain ⟨k', a⟩ := item
    rw [modifyItems]
    by_cases hk : k' = k
    · simp [hk]
    · rw [if_neg hk, List.map_cons, ih]
      have hmem : k ∈ ((k', a) :: rest).map Prod.fst ↔ k ∈ rest.map Prod.fst := by
        simp [Ne.symm hk]
      simp only [hmem]
      split_ifs <;> rfl

/-- `f` is applied to the value of the key, which is `init` if there is none. -/
def modify (d : Dict κ α) (k : κ) (init : α) (f : α → α) : Dict κ α where
  items := modifyItems k init f d.items
  nodup := by
    rw [keys_modifyItems]
    split_ifs with hk
    · exact d.nodup
    · exact List.nodup_append.mpr ⟨d.nodup, List.nodup_singleton k, by
        rintro k' hk' _ hmem rfl
        exact hk (List.mem_singleton.mp hmem ▸ hk')⟩

/-- The value of a key. -/
def get (d : Dict κ α) (k : κ) : Option α := d.items.lookup k

theorem lookup_modifyItems (k k' : κ) (init : α) (f : α → α) (items : List (κ × α)) :
    (modifyItems k init f items).lookup k'
      = if k' = k then some (f ((items.lookup k).getD init)) else items.lookup k' := by
  induction items with
  | nil =>
    by_cases hk : k' = k
    · simp [modifyItems, hk]
    · have hbeq : (k' == k) = false := by simpa using hk
      simp [modifyItems, List.lookup_cons, hk, hbeq]
  | cons item rest ih =>
    obtain ⟨k₀, a⟩ := item
    rw [modifyItems]
    by_cases hk₀ : k₀ = k
    · subst hk₀
      by_cases hk : k' = k₀
      · simp [hk]
      · have hbeq : (k' == k₀) = false := by simpa using hk
        simp [List.lookup_cons, hk, hbeq]
    · rw [if_neg hk₀, List.lookup_cons, ih, List.lookup_cons, List.lookup_cons]
      have hbeq : (k == k₀) = false := by simpa using Ne.symm hk₀
      by_cases hk : k' = k₀
      · simp [hk, hk₀]
      · have hbeq' : (k' == k₀) = false := by simpa using hk
        simp only [hbeq, hbeq']

/-- **A change is one of the value of its key.** -/
theorem get_modify (d : Dict κ α) (k k' : κ) (init : α) (f : α → α) :
    (d.modify k init f).get k'
      = if k' = k then some (f ((d.get k).getD init)) else d.get k' :=
  lookup_modifyItems k k' init f d.items

theorem mem_items_iff {d : Dict κ α} {k : κ} {a : α} : (k, a) ∈ d.items ↔ d.get k = some a := by
  obtain ⟨items, hnodup⟩ := d
  show (k, a) ∈ items ↔ items.lookup k = some a
  induction items with
  | nil => simp
  | cons item rest ih =>
    obtain ⟨k₀, a₀⟩ := item
    rw [List.map_cons, List.nodup_cons] at hnodup
    rw [List.mem_cons, List.lookup_cons, ih hnodup.2]
    by_cases hk : k = k₀
    · subst hk
      have hnone : rest.lookup k = none := by
        rw [List.lookup_eq_none_iff]
        intro p hp
        have hne : k ≠ p.1 := fun heq => hnodup.1 (List.mem_map.mpr ⟨p, hp, heq.symm⟩)
        simpa using hne
      simp [hnone, eq_comm]
    · have hbeq : (k == k₀) = false := by simpa using hk
      simp [hk, hbeq]

end Dict

end OrderedDict
