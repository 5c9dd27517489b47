import Mathlib.Data.List.Count
import Mathlib.Logic.Function.Basic

namespace SharedHeap

/-!
# Shared ownership

A heap of objects held by counted owners, with the operations of `std::shared_ptr` and
`std::weak_ptr`: an object is made with one owner, an owner may be copied (`acquire`) and
dropped (`release`), and the object is destroyed when its last owner is dropped.  A weak
reference is an address; it is expired when nothing lives there any more (addresses are
never handed out twice).

`Counted h owners` says that `owners` lists, with multiplicity, the owners the counts stand
for.  Each operation keeps it for the list with one owner more or less, which is how a
program that hides its owners in locals, members and containers is followed.
-/

/-- A control block: the number of owners and the object. -/
structure Cell (α : Type) where
  useCount : Nat
  val : α

/-- The heap, and the next address to hand out. -/
structure Heap (α : Type) where
  cells : Nat → Option (Cell α)
  next : Nat

variable {α : Type} {h : Heap α} {owners : List Nat} {a b : Nat}

/-- No object at all. -/
def empty : Heap α := ⟨fun _ => none, 0⟩

/-- The object at an address, `none` once it is destroyed (`weak_ptr::lock`). -/
def Heap.get (h : Heap α) (a : Nat) : Option α := (h.cells a).map Cell.val

/-- The number of owners of an address. -/
def Heap.useCount (h : Heap α) (a : Nat) : Nat := ((h.cells a).map Cell.useCount).getD 0

/-- A new object with one owner, at `h.next`. -/
def Heap.make (h : Heap α) (x : α) : Heap α :=
  ⟨Function.update h.cells h.next (some ⟨1, x⟩), h.next + 1⟩

/-- Replace what happens to the cell at `a`. -/
def Heap.onCell (h : Heap α) (a : Nat) (f : Cell α → Option (Cell α)) : Heap α :=
  { h with cells := Function.update h.cells a ((h.cells a).bind f) }

/-- Copy an owner. -/
def Heap.acquire (h : Heap α) (a : Nat) : Heap α :=
  h.onCell a fun c => some { c with useCount := c.useCount + 1 }

/-- Drop an owner; the last one destroys the object. -/
def Heap.release (h : Heap α) (a : Nat) : Heap α :=
  h.onCell a fun c => if c.useCount ≤ 1 then none else some { c with useCount := c.useCount - 1 }

/-- Drop several owners of one object. -/
def Heap.releaseMany (h : Heap α) (a : Nat) : Nat → Heap α
  | 0     => h
  | n + 1 => (h.release a).releaseMany a n

/-- Write the object. -/
def Heap.modify (h : Heap α) (a : Nat) (f : α → α) : Heap α :=
  h.onCell a fun c => some { c with val := f c.val }

/-! ### Reading after an operation -/

@[simp] theorem get_empty (a : Nat) : (empty : Heap α).get a = none := rfl

@[simp] theorem get_make_self (h : Heap α) (x : α) : (h.make x).get h.next = some x := by
  simp [Heap.get, Heap.make]

theorem get_make_of_ne (h : Heap α) (x : α) (hne : b ≠ h.next) : (h.make x).get b = h.get b := by
  simp [Heap.get, Heap.make, hne]

/-- What lives after an object was made is the object, or lived before. -/
theorem get_make_cases {x y : α} (hb : (h.make x).get b = some y) :
    (b = h.next ∧ x = y) ∨ h.get b = some y := by
  by_cases hnext : b = h.next
  · subst hnext
    rw [get_make_self, Option.some.injEq] at hb
    exact Or.inl ⟨rfl, hb⟩
  · rw [get_make_of_ne h x hnext] at hb
    exact Or.inr hb

theorem get_onCell_of_ne (h : Heap α) (f : Cell α → Option (Cell α)) (hne : b ≠ a) :
    (h.onCell a f).get b = h.get b := by
  simp [Heap.get, Heap.onCell, hne]

@[simp] theorem get_acquire (h : Heap α) (a b : Nat) : (h.acquire a).get b = h.get b := by
  by_cases hb : b = a
  · subst hb
    cases hc : h.cells b <;> simp [Heap.get, Heap.acquire, Heap.onCell, hc]
  · exact get_onCell_of_ne h _ hb

theorem get_release_of_ne (h : Heap α) (hne : b ≠ a) : (h.release a).get b = h.get b :=
  get_onCell_of_ne h _ hne

/-- A release either keeps the object or destroys it. -/
theorem get_release_self (h : Heap α) (a : Nat) :
    (h.release a).get a = if h.useCount a ≤ 1 then none else h.get a := by
  cases hc : h.cells a with
  | none => simp [Heap.get, Heap.release, Heap.onCell, Heap.useCount, hc]
  | some c =>
    by_cases hle : c.useCount ≤ 1 <;>
      simp [Heap.get, Heap.release, Heap.onCell, Heap.useCount, hc, hle]

/-- What lives after a release lived before it. -/
theorem get_of_get_release {x : α} (hx : (h.release a).get b = some x) : h.get b = some x := by
  by_cases hb : b = a
  · subst hb
    rw [get_release_self] at hx
    by_cases hle : h.useCount b ≤ 1
    · rw [if_pos hle] at hx; cases hx
    · rwa [if_neg hle] at hx
  · rwa [get_release_of_ne h hb] at hx

/-- What is dead stays dead. -/
theorem get_release_eq_none (hb : h.get b = none) : (h.release a).get b = none := by
  by_contra hsome
  obtain ⟨x, hx⟩ := Option.ne_none_iff_exists'.mp hsome
  rw [get_of_get_release hx] at hb
  cases hb

@[simp] theorem get_modify_self (h : Heap α) (a : Nat) (f : α → α) :
    (h.modify a f).get a = (h.get a).map f := by
  cases hc : h.cells a <;> simp [Heap.get, Heap.modify, Heap.onCell, hc]

theorem get_modify_of_ne (h : Heap α) (f : α → α) (hne : b ≠ a) :
    (h.modify a f).get b = h.get b :=
  get_onCell_of_ne h _ hne

theorem get_modify_eq_none {f : α → α} (hb : h.get b = none) : (h.modify a f).get b = none := by
  by_cases hba : b = a
  · subst hba
    rw [get_modify_self, hb, Option.map_none]
  · rw [get_modify_of_ne h f hba, hb]

/-- Only the value written to a living object matters. -/
theorem modify_congr {f g : α → α} {x : α} (hx : h.get a = some x) (hfg : f x = g x) :
    h.modify a f = h.modify a g := by
  obtain ⟨c, hc, rfl⟩ := Option.map_eq_some_iff.mp hx
  simp only [Heap.modify, Heap.onCell, hc, Option.bind_some, hfg]

@[simp] theorem next_acquire (h : Heap α) (a : Nat) : (h.acquire a).next = h.next := rfl
@[simp] theorem next_release (h : Heap α) (a : Nat) : (h.release a).next = h.next := rfl
@[simp] theorem next_releaseMany (h : Heap α) (a n : Nat) : (h.releaseMany a n).next = h.next := by
  induction n generalizing h with
  | zero => rfl
  | succ n ih => exact ih (h.release a)
@[simp] theorem next_modify (h : Heap α) (a : Nat) (f : α → α) : (h.modify a f).next = h.next := rfl
@[simp] theorem next_make (h : Heap α) (x : α) : (h.make x).next = h.next + 1 := rfl

/-! ### Counted owners -/

/-- The counts of the heap are those of the list of owners: every address has as many owners
    as the list has occurrences of it, a living object has at least one, and the addresses
    not handed out yet are empty. -/
structure Heap.Counted (h : Heap α) (owners : List Nat) : Prop where
  count : ∀ a, h.useCount a = owners.count a
  pos : ∀ a c, h.cells a = some c → 0 < c.useCount
  fresh : ∀ a, h.next ≤ a → h.cells a = none

theorem counted_empty : (empty : Heap α).Counted [] :=
  ⟨fun _ => rfl, fun _ _ hc => (nomatch hc), fun _ _ => rfl⟩

/-- Only the number of owners matters. -/
theorem Heap.Counted.congr {owners' : List Nat} (hc : h.Counted owners)
    (heq : ∀ a, owners.count a = owners'.count a) : h.Counted owners' :=
  ⟨fun a => (hc.count a).trans (heq a), hc.pos, hc.fresh⟩

/-- **An object lives as long as it has an owner.** -/
theorem Heap.Counted.alive_iff (hc : h.Counted owners) (a : Nat) :
    (h.get a).isSome = true ↔ a ∈ owners := by
  rw [← List.count_pos_iff, ← hc.count a]
  cases hcell : h.cells a with
  | none => simp [Heap.get, Heap.useCount, hcell]
  | some c =>
    have hpos := hc.pos a c hcell
    simp [Heap.get, Heap.useCount, hcell, hpos]

/-- An owner has its object. -/
theorem Heap.Counted.exists_get (hc : h.Counted owners) (ha : a ∈ owners) :
    ∃ x, h.get a = some x :=
  Option.isSome_iff_exists.mp ((hc.alive_iff a).mpr ha)

/-- A living object has an owner. -/
theorem Heap.Counted.mem_of_get (hc : h.Counted owners) {x : α} (hx : h.get a = some x) :
    a ∈ owners :=
  (hc.alive_iff a).mp (by rw [hx]; rfl)

/-- The next address is nobody's. -/
theorem Heap.Counted.next_not_mem (hc : h.Counted owners) : h.next ∉ owners := by
  intro hmem
  obtain ⟨x, hx⟩ := hc.exists_get hmem
  simp [Heap.get, hc.fresh h.next (Nat.le_refl _)] at hx

/-- Owners have addresses handed out before. -/
theorem Heap.Counted.lt_next (hc : h.Counted owners) (ha : a ∈ owners) : a < h.next := by
  by_contra hge
  obtain ⟨x, hx⟩ := hc.exists_get ha
  simp [Heap.get, hc.fresh a (Nat.not_lt.mp hge)] at hx

theorem Heap.Counted.make (hc : h.Counted owners) (x : α) :
    (h.make x).Counted (h.next :: owners) := by
  refine ⟨?_, ?_, ?_⟩
  · intro b
    by_cases hb : b = h.next
    · subst hb
      have hz := List.count_eq_zero.mpr hc.next_not_mem
      simp [Heap.useCount, Heap.make, hz]
    · rw [List.count_cons_of_ne (Ne.symm hb), ← hc.count b]
      simp [Heap.useCount, Heap.make, hb]
  · intro b c hb
    by_cases hbn : b = h.next
    · subst hbn
      simp only [Heap.make, Function.update_self, Option.some.injEq] at hb
      subst hb
      exact Nat.one_pos
    · simp only [Heap.make, Function.update_of_ne hbn] at hb
      exact hc.pos b c hb
  · intro b hb
    have hlt : h.next < b := hb
    simp only [Heap.make, Function.update_of_ne (Nat.ne_of_gt hlt)]
    exact hc.fresh b (Nat.le_of_lt hlt)

/-- Changing one living cell, with as many owners more or less as the list gets. -/
private theorem counted_onCell {owners' : List Nat} (hc : h.Counted owners)
    (f : Cell α → Option (Cell α)) (hne : ∀ b, b ≠ a → owners'.count b = owners.count b)
    (hself : (h.onCell a f).useCount a = owners'.count a)
    (hpos : ∀ c c', h.cells a = some c → f c = some c' → 0 < c'.useCount) :
    (h.onCell a f).Counted owners' := by
  refine ⟨?_, ?_, ?_⟩
  · intro b
    by_cases hb : b = a
    · subst hb; exact hself
    · rw [hne b hb, ← hc.count b]
      simp [Heap.useCount, Heap.onCell, hb]
  · intro b c hb
    by_cases hba : b = a
    · subst hba
      simp only [Heap.onCell, Function.update_self] at hb
      obtain ⟨c₀, h₀, h₁⟩ := Option.bind_eq_some_iff.mp hb
      exact hpos c₀ c h₀ h₁
    · simp only [Heap.onCell, Function.update_of_ne hba] at hb
      exact hc.pos b c hb
  · intro b hb
    have hfresh := hc.fresh b hb
    by_cases hba : b = a
    · subst hba; simp [Heap.onCell, hfresh]
    · simp only [Heap.onCell, Function.update_of_ne hba]
      exact hfresh

theorem Heap.Counted.acquire (hc : h.Counted owners) (ha : a ∈ owners) :
    (h.acquire a).Counted (a :: owners) := by
  refine counted_onCell hc _ (fun b hb => List.count_cons_of_ne (Ne.symm hb)) ?_ ?_
  · obtain ⟨x, hx⟩ := hc.exists_get ha
    obtain ⟨c, hcell, _⟩ := Option.map_eq_some_iff.mp hx
    rw [List.count_cons_self, ← hc.count a]
    simp [Heap.useCount, Heap.onCell, hcell]
  · intro c c' _ hf
    cases hf
    exact Nat.succ_pos _

theorem Heap.Counted.release (hc : h.Counted owners) (ha : a ∈ owners) :
    (h.release a).Counted (owners.erase a) := by
  refine counted_onCell hc _ (fun b hb => List.count_erase_of_ne hb) ?_ ?_
  · obtain ⟨x, hx⟩ := hc.exists_get ha
    obtain ⟨c, hcell, _⟩ := Option.map_eq_some_iff.mp hx
    have hcount := hc.count a
    have hpos := hc.pos a c hcell
    rw [List.count_erase_self, ← hcount]
    by_cases hle : c.useCount ≤ 1
    · have hone : c.useCount = 1 := by omega
      simp [Heap.useCount, Heap.onCell, hcell, hone]
    · simp [Heap.useCount, Heap.onCell, hcell, hle]
  · intro c c' _ hf
    by_cases hle : c.useCount ≤ 1
    · rw [if_pos hle] at hf; cases hf
    · rw [if_neg hle] at hf
      cases hf
      show 0 < c.useCount - 1
      omega

/-- Dropping `n` owners, wherever the list names them. -/
theorem Heap.Counted.releaseMany {owners' : List Nat} (hc : h.Counted owners) (n : Nat)
    (hcount : ∀ b, owners.count b = owners'.count b + if b = a then n else 0) :
    (h.releaseMany a n).Counted owners' := by
  induction n generalizing h owners with
  | zero => exact hc.congr fun b => by simpa using hcount b
  | succ n ih =>
    have hself := hcount a
    rw [if_pos rfl] at hself
    refine ih (hc.release (List.count_pos_iff.mp (by omega))) fun b => ?_
    have hb := hcount b
    by_cases hba : b = a
    · subst hba
      rw [List.count_erase_self, if_pos rfl]
      omega
    · rw [List.count_erase_of_ne hba, if_neg hba]
      rwa [if_neg hba] at hb

theorem Heap.Counted.modify (hc : h.Counted owners) (a : Nat) (f : α → α) :
    (h.modify a f).Counted owners := by
  refine counted_onCell hc _ (fun _ _ => rfl) ?_ ?_
  · rw [← hc.count a]
    cases hcell : h.cells a <;> simp [Heap.useCount, Heap.onCell, hcell]
  · intro c c' hcell hf
    cases hf
    exact hc.pos a c hcell

/-- The order in which the owners are listed is irrelevant. -/
theorem Heap.Counted.perm {owners' : List Nat} (hc : h.Counted owners)
    (hp : owners.Perm owners') : h.Counted owners' :=
  hc.congr fun a => hp.count_eq a

/-- Dropping an owner that the list names in some place. -/
theorem Heap.Counted.release_middle {xs ys : List Nat} (hc : h.Counted (xs ++ a :: ys)) :
    (h.release a).Counted (xs ++ ys) := by
  have hfront : h.Counted (a :: (xs ++ ys)) := hc.perm List.perm_middle
  have hrel := hfront.release List.mem_cons_self
  rwa [List.erase_cons_head] at hrel

/-- **The last owner destroys.**  After a release the object is there iff another owner is. -/
theorem Heap.Counted.get_release (hc : h.Counted owners) (ha : a ∈ owners) (b : Nat) :
    (h.release a).get b = if b ∈ owners.erase a then h.get b else none := by
  by_cases hmem : b ∈ owners.erase a
  · rw [if_pos hmem]
    by_cases hb : b = a
    · subst hb
      obtain ⟨x, hx⟩ := (hc.release ha).exists_get hmem
      have hr := get_release_self h b
      rw [hx] at hr ⊢
      by_cases hle : h.useCount b ≤ 1
      · rw [if_pos hle] at hr; cases hr
      · rw [if_neg hle] at hr; exact hr
    · exact get_release_of_ne h hb
  · rw [if_neg hmem]
    have hiff := (hc.release ha).alive_iff b
    cases hg : (h.release a).get b with
    | none => rfl
    | some x => exact absurd (hiff.mp (by rw [hg]; rfl)) hmem

end SharedHeap
