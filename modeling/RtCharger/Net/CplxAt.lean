import RtCharger.Lib.SharedHeap
import RtCharger.Lib.StepSystem

namespace RtCharger.Net

open SharedHeap StepSystem

/-!
# Complex AT devices and their components

`CplxAt::make` and `CplxAtBase::getCompFromUrc`, with what they call of `AtComp`, `AtCompBase`
and `At`.  A component is told apart by its exact type (`typeid`), a `CplxAt` by its AT client;
the registry `comps` is one map for all of them and holds weak references to components of all
types, pruned while `make` scans it.

* `scan` — the loop of `make`, with its erasures and its throw in the middle;
* `make`, `getCompFromUrc` — the functions of the source;
* `CplxAt.step` — one operation of a program on these;
* `Registered` — the invariant: what lives is registered under its client, once for each type;
* `one_live_component_per_type_and_client` — what it gives in every state reached.
-/

/-- The address of a component object. -/
abbrev Addr : Type := Nat

/-- A component: the client of its `at`, and its type. -/
structure AtComp (Client Ty : Type) where
  client : Client
  ty : Ty
deriving DecidableEq, Repr

/-- A successful call of `make`, and whether a build of the URC table failed in it. -/
structure Made (Client Ty : Type) where
  client : Client
  ty : Ty
  fails : Bool
deriving DecidableEq, Repr

/-- The components, the map `CplxAtBase::comps`, the static flags of `AtComp::clsInited`, and
    the URC tables that `At::addUrc` gave to each client, by the class whose `onUrcBuild` built
    them.  `made` records the successful calls of `make`. -/
structure CplxAt (Client Ty : Type) where
  heap : Heap (AtComp Client Ty)
  comps : Client → Option (List Addr)
  inited : Ty → Bool
  urcList : Client → List Ty
  made : List (Made Client Ty)

namespace CplxAt

variable {Client Ty : Type}

/-- Before any `CplxAt` is made. -/
def init : CplxAt Client Ty := ⟨SharedHeap.empty, fun _ => none, fun _ => false, fun _ => [], []⟩

/-! ### The invariant -/

/-- The list that `make` scans for `client`. -/
abbrev compsInThis (s : CplxAt Client Ty) (client : Client) : List Addr :=
  (s.comps client).getD []

/-- A live component of the type on the client's list. -/
def Listed (s : CplxAt Client Ty) (client : Client) (ty : Ty) : Prop :=
  ∃ a ∈ compsInThis s client, ∃ comp, s.heap.get a = some comp ∧ comp.ty = ty

/-- What lives is registered under its own client, once for each type. -/
structure Registered (s : CplxAt Client Ty) : Prop where
  listed : ∀ a comp, s.heap.get a = some comp → ∃ l, s.comps comp.client = some l ∧ a ∈ l
  own : ∀ client l a comp, s.comps client = some l → a ∈ l → s.heap.get a = some comp →
    comp.client = client
  old : ∀ client l a, s.comps client = some l → a ∈ l → a < s.heap.next
  unique : ∀ a b comp, s.heap.get a = some comp → s.heap.get b = some comp → a = b
  unused : ∀ a, s.heap.next ≤ a → s.heap.get a = none

theorem registered_init : Registered (init : CplxAt Client Ty) where
  listed := fun _ _ h => by cases h
  own := fun _ _ _ _ h => by cases h
  old := fun _ _ _ h => by cases h
  unique := fun _ _ _ h => by cases h
  unused := fun _ _ => rfl

/-- Under the invariant the list of a client names exactly its live components. -/
theorem Registered.listed_iff {s : CplxAt Client Ty} (h : Registered s) (client : Client)
    (ty : Ty) : Listed s client ty ↔ ∃ a, s.heap.get a = some ⟨client, ty⟩ := by
  constructor
  · rintro ⟨a, ha, comp, hget, hty⟩
    cases hl : s.comps client with
    | none => rw [compsInThis, hl] at ha; cases ha
    | some l =>
      rw [compsInThis, hl, Option.getD_some] at ha
      have hown := h.own client l a comp hl ha hget
      subst hown hty
      exact ⟨a, hget⟩
  · rintro ⟨a, hget⟩
    obtain ⟨l, hl, ha⟩ := h.listed a _ hget
    have hl' : s.comps client = some l := hl
    exact ⟨a, by rw [compsInThis, hl', Option.getD_some]; exact ha, _, hget, rfl⟩

/-- The invariant is about the components and the registry only. -/
theorem Registered.congr {s t : CplxAt Client Ty} (h : Registered s) (hheap : t.heap = s.heap)
    (hcomps : t.comps = s.comps) : Registered t := by
  obtain ⟨hlisted, hown, hold, hunique, hunused⟩ := h
  refine ⟨?_, ?_, ?_, ?_, ?_⟩ <;> rw [hheap] <;> first | rw [hcomps]; assumption | assumption

/-- Owners come and go: nothing new lives. -/
theorem Registered.mono {s : CplxAt Client Ty} (h : Registered s) {heap : Heap (AtComp Client Ty)}
    (hnext : heap.next = s.heap.next)
    (hget : ∀ a comp, heap.get a = some comp → s.heap.get a = some comp) :
    Registered { s with heap := heap } where
  listed := fun a comp ha => h.listed a comp (hget a comp ha)
  own := fun c l a comp hl ha hlive => h.own c l a comp hl ha (hget a comp hlive)
  old := fun c l a hl ha => by
    show a < heap.next
    rw [hnext]
    exact h.old c l a hl ha
  unique := fun a b comp ha hb => h.unique a b comp (hget a comp ha) (hget b comp hb)
  unused := by
    intro a ha
    have hle : s.heap.next ≤ a := by rw [← hnext]; exact ha
    cases hlive : heap.get a with
    | none => rfl
    | some comp =>
      have hlive' := hget a comp hlive
      rw [h.unused a hle] at hlive'
      cases hlive'

section Change

variable [DecidableEq Client]

/-- Whatever is in a list after one of them was made shorter was in it before. -/
theorem exists_comps_of_pruned {s : CplxAt Client Ty} {client c : Client} {l' l : List Addr}
    (hsub : ∀ a ∈ l', a ∈ compsInThis s client)
    (hl : Function.update s.comps client (some l') c = some l) {a : Addr} (ha : a ∈ l) :
    ∃ l₀, s.comps c = some l₀ ∧ a ∈ l₀ := by
  by_cases hc : c = client
  · subst hc
    simp only [Function.update_self, Option.some.injEq] at hl
    subst hl
    have hmem := hsub a ha
    cases hl₀ : s.comps c with
    | none =>
      rw [compsInThis, hl₀] at hmem
      cases hmem
    | some l₀ =>
      rw [compsInThis, hl₀] at hmem
      exact ⟨l₀, rfl, hmem⟩
  · rw [Function.update_of_ne hc] at hl
    exact ⟨l, hl, ha⟩

/-- Replacing one list by one with the same live components keeps the invariant. -/
theorem Registered.prune {s : CplxAt Client Ty} (h : Registered s) (client : Client)
    (l' : List Addr) (hsub : ∀ a ∈ l', a ∈ compsInThis s client)
    (hlive : ∀ a comp, s.heap.get a = some comp → a ∈ compsInThis s client → a ∈ l') :
    Registered { s with comps := Function.update s.comps client (some l') } where
  listed := by
    intro a comp hget
    obtain ⟨l, hl, ha⟩ := h.listed a comp hget
    by_cases hc : comp.client = client
    · subst hc
      refine ⟨l', Function.update_self _ _ _, hlive a comp hget ?_⟩
      rw [compsInThis, hl]
      exact ha
    · exact ⟨l, by simp [hc, hl], ha⟩
  own := by
    intro c l a comp hl ha hget
    obtain ⟨l₀, hl₀, ha₀⟩ := exists_comps_of_pruned hsub hl ha
    exact h.own c l₀ a comp hl₀ ha₀ hget
  old := by
    intro c l a hl ha
    obtain ⟨l₀, hl₀, ha₀⟩ := exists_comps_of_pruned hsub hl ha
    exact h.old c l₀ a hl₀ ha₀
  unique := h.unique
  unused := h.unused

/-- A new component of a type that does not live on its client, put on the client's list. -/
theorem Registered.add {s : CplxAt Client Ty} (h : Registered s) {client : Client} {ty : Ty}
    {l : List Addr} (hl : s.comps client = some l)
    (hnew : ¬∃ a, s.heap.get a = some ⟨client, ty⟩) :
    Registered { s with
      heap := s.heap.make ⟨client, ty⟩
      comps := Function.update s.comps client (some (l ++ [s.heap.next])) } where
  listed := by
    intro a comp hget
    rcases get_make_cases hget with ⟨rfl, rfl⟩ | hget
    · exact ⟨_, Function.update_self _ _ _, by simp⟩
    · obtain ⟨l', hl', hmem⟩ := h.listed a comp hget
      by_cases hc : comp.client = client
      · rw [hc, hl, Option.some.injEq] at hl'
        subst hl'
        exact ⟨_, by rw [hc]; exact Function.update_self _ _ _, List.mem_append_left _ hmem⟩
      · exact ⟨l', by simp [hc, hl'], hmem⟩
  own := by
    intro c l' a comp hl' ha hget
    by_cases hc : c = client
    · subst hc
      simp only [Function.update_self, Option.some.injEq] at hl'
      subst hl'
      rcases get_make_cases hget with ⟨rfl, rfl⟩ | hget
      · rfl
      · -- the address at the end of the list is that of the new component, where nothing lived
        rcases List.mem_append.mp ha with hmem | hmem
        · exact h.own c l a comp hl hmem hget
        · rw [List.mem_singleton.mp hmem, h.unused _ (Nat.le_refl _)] at hget
          cases hget
    · simp only [Function.update_of_ne hc] at hl'
      have hnext : a ≠ s.heap.next := Nat.ne_of_lt (h.old c l' a hl' ha)
      rw [get_make_of_ne _ _ hnext] at hget
      exact h.own c l' a comp hl' ha hget
  old := by
    intro c l' a hl' ha
    show a < s.heap.next + 1
    by_cases hc : c = client
    · subst hc
      simp only [Function.update_self, Option.some.injEq] at hl'
      subst hl'
      rcases List.mem_append.mp ha with hmem | hmem
      · exact Nat.lt_succ_of_lt (h.old c l a hl hmem)
      · rw [List.mem_singleton.mp hmem]
        exact Nat.lt_succ_self _
    · simp only [Function.update_of_ne hc] at hl'
      exact Nat.lt_succ_of_lt (h.old c l' a hl' ha)
  unique := by
    intro a b comp ha hb
    rcases get_make_cases ha with ⟨rfl, rfl⟩ | ha
    · rcases get_make_cases hb with ⟨rfl, _⟩ | hb
      · rfl
      · exact absurd ⟨b, hb⟩ hnew
    · rcases get_make_cases hb with ⟨rfl, rfl⟩ | hb
      · exact absurd ⟨a, ha⟩ hnew
      · exact h.unique a b comp ha hb
  unused := by
    intro a ha
    have hlt : s.heap.next < a := ha
    rw [get_make_of_ne _ _ (Nat.ne_of_gt hlt)]
    exact h.unused a (Nat.le_of_lt hlt)

end Change

variable [DecidableEq Ty]

/-! ### The loops over the registry -/

/-- The loop of `make`: what is left in the list, and whether it throws. -/
def scan (heap : Heap (AtComp Client Ty)) (ty : Ty) : List Addr → List Addr × Bool
  | []      => ([], false)
  | a :: as =>
    match heap.get a with
    | none      => scan heap ty as
    | some comp =>
      if comp.ty = ty then (a :: as, true)
      else (a :: (scan heap ty as).1, (scan heap ty as).2)

/-- The loop of `getCompFromUrc`. -/
def findLive (heap : Heap (AtComp Client Ty)) (ty : Ty) : List Addr → Option Addr
  | []      => none
  | a :: as =>
    match heap.get a with
    | none      => findLive heap ty as
    | some comp => if comp.ty = ty then some a else findLive heap ty as

/-- `CplxAtBase::getCompFromUrc<T>(client)`; a null pointer is `none`. -/
def getCompFromUrc (s : CplxAt Client Ty) (ty : Ty) (client : Client) :
    Except String (Option Addr) :=
  match s.comps client with
  | none   => .error "client not found"
  | some l => .ok (findLive s.heap ty l)

section Loops

variable {heap : Heap (AtComp Client Ty)} {ty : Ty}

/-- The scan throws exactly when a live component of the type is in the list. -/
theorem scan_found_iff (l : List Addr) :
    (scan heap ty l).2 = true ↔ ∃ a ∈ l, ∃ comp, heap.get a = some comp ∧ comp.ty = ty := by
  induction l with
  | nil => simp [scan]
  | cons a as ih =>
    cases hget : heap.get a with
    | none => simp [scan, hget, ih]
    | some comp =>
      by_cases hty : comp.ty = ty
      · simp [scan, hget, hty]
      · simp [scan, hget, hty, ih]

/-- The scan erases nothing that lives. -/
theorem mem_scan_of_live {a : Addr} {comp : AtComp Client Ty} (hget : heap.get a = some comp)
    {l : List Addr} (ha : a ∈ l) : a ∈ (scan heap ty l).1 := by
  induction l with
  | nil => exact ha
  | cons b bs ih =>
    cases hb : heap.get b with
    | none =>
      have hne : a ≠ b := by rintro rfl; rw [hget] at hb; cases hb
      have htail := ih ((List.mem_cons.mp ha).resolve_left hne)
      simpa [scan, hb] using htail
    | some other =>
      by_cases hty : other.ty = ty
      · simpa [scan, hb, hty] using ha
      · rcases List.mem_cons.mp ha with rfl | htail
        · simp [scan, hb, hty]
        · simp [scan, hb, hty, ih htail]

/-- The scan adds nothing. -/
theorem mem_of_mem_scan {a : Addr} {l : List Addr} (ha : a ∈ (scan heap ty l).1) : a ∈ l := by
  induction l with
  | nil => exact ha
  | cons b bs ih =>
    cases hb : heap.get b with
    | none =>
      rw [scan, hb] at ha
      exact List.mem_cons_of_mem b (ih ha)
    | some other =>
      by_cases hty : other.ty = ty
      · simpa [scan, hb, hty] using ha
      · simp only [scan, hb, hty, if_false, List.mem_cons] at ha
        exact List.mem_cons.mpr (ha.imp_right ih)

/-- What the lookup finds lives, has the type and is in the list. -/
theorem findLive_some {l : List Addr} {a : Addr} (h : findLive heap ty l = some a) :
    a ∈ l ∧ ∃ comp, heap.get a = some comp ∧ comp.ty = ty := by
  induction l with
  | nil => cases h
  | cons b bs ih =>
    cases hb : heap.get b with
    | none =>
      rw [findLive, hb] at h
      exact ⟨List.mem_cons_of_mem b (ih h).1, (ih h).2⟩
    | some comp =>
      by_cases hty : comp.ty = ty
      · simp only [findLive, hb, hty, if_true, Option.some.injEq] at h
        subst h
        exact ⟨List.mem_cons_self, comp, hb, hty⟩
      · simp only [findLive, hb, hty, if_false] at h
        exact ⟨List.mem_cons_of_mem b (ih h).1, (ih h).2⟩

/-- A lookup that finds nothing has passed every live component of the type. -/
theorem findLive_none {l : List Addr} (h : findLive heap ty l = none) {a : Addr} (ha : a ∈ l)
    {comp : AtComp Client Ty} (hget : heap.get a = some comp) : comp.ty ≠ ty := by
  induction l with
  | nil => cases ha
  | cons b bs ih =>
    cases hb : heap.get b with
    | none =>
      have hne : a ≠ b := by rintro rfl; rw [hget] at hb; cases hb
      rw [findLive, hb] at h
      exact ih h ((List.mem_cons.mp ha).resolve_left hne)
    | some other =>
      by_cases hty : other.ty = ty
      · simp [findLive, hb, hty] at h
      · simp only [findLive, hb, hty, if_false] at h
        rcases List.mem_cons.mp ha with rfl | htail
        · rw [hget] at hb
          cases hb
          exact hty
        · exact ih h htail

/-- The lookup finds exactly the component of the type that lives on the client. -/
theorem Registered.getCompFromUrc_iff {s : CplxAt Client Ty} (h : Registered s) {client : Client}
    (hc : (s.comps client).isSome = true) (ty : Ty) :
    ∃ found, getCompFromUrc s ty client = .ok found ∧
      ∀ a, found = some a ↔ s.heap.get a = some ⟨client, ty⟩ := by
  obtain ⟨l, hl⟩ := Option.isSome_iff_exists.mp hc
  refine ⟨findLive s.heap ty l, by rw [getCompFromUrc, hl], fun a => ?_⟩
  constructor
  · intro hfound
    obtain ⟨ha, comp, hget, hty⟩ := findLive_some hfound
    have hown := h.own client l a comp hl ha hget
    subst hown hty
    exact hget
  · intro hget
    obtain ⟨l', hl', ha⟩ := h.listed a _ hget
    have hll : l = l' := Option.some.inj (hl.symm.trans hl')
    subst hll
    cases hfound : findLive s.heap ty l with
    | none => exact absurd rfl (findLive_none hfound ha hget)
    | some b =>
      obtain ⟨hb, comp, hgetb, hty⟩ := findLive_some hfound
      have hown := h.own client l b comp hl hb hgetb
      subst hown hty
      rw [h.unique a b _ hget hgetb]

end Loops

variable [DecidableEq Client]

/-! ### Registering the handlers -/

/-- `AtComp::clsInited`: the flag of the class, which the first call sets. -/
def clsInited (s : CplxAt Client Ty) (ty : Ty) : Bool × CplxAt Client Ty :=
  if s.inited ty then (true, s)
  else (false, { s with inited := Function.update s.inited ty true })

/-- `AtComp::onUrcInit`: the table that the `onUrcBuild` of the class builds.  A class that does
    not override it throws, and so does a build that `fails`. -/
def onUrcInit (overrides : Ty → Bool) (ty : Ty) (fails : Bool) : Except String Ty :=
  if overrides ty then (if fails then .error "URC table" else .ok ty)
  else .error "not implemented"

/-- `At::addUrc`. -/
def addUrc (s : CplxAt Client Ty) (client : Client) (table : Ty) : CplxAt Client Ty :=
  { s with urcList := Function.update s.urcList client (s.urcList client ++ [table]) }

/-- `AtCompBase::init` of a component of type `ty` on `client`. -/
def initComp (overrides : Ty → Bool) (s : CplxAt Client Ty) (client : Client) (ty : Ty)
    (fails : Bool) : CplxAt Client Ty :=
  match clsInited s ty with
  | (true, s)  => s
  | (false, s) =>
    match onUrcInit overrides ty fails with
    | .ok table => addUrc s client table
    -- `catch(...) { }`
    | .error _  => s

/-! ### `make` and the lookup -/

/-- `CplxAt::make<Comp>()` on the `CplxAt` of `client`. -/
def make (overrides : Ty → Bool) (s : CplxAt Client Ty) (client : Client) (ty : Ty)
    (fails : Bool) : Except String Addr × CplxAt Client Ty :=
  let scanned := scan s.heap ty ((s.comps client).getD [])
  let s := { s with comps := Function.update s.comps client (some scanned.1) }
  if scanned.2 then (.error "comp inst already existed", s)
  else
    let a := s.heap.next
    let s := { s with heap := s.heap.make ⟨client, ty⟩ }
    let s := initComp overrides s client ty fails
    (.ok a, { s with
      comps := Function.update s.comps client (some (scanned.1 ++ [a]))
      made := s.made ++ [⟨client, ty, fails⟩] })

/-! ### Programs -/

/-- The operations of a program.  `construct` is the constructor of a `CplxAt` whose client no
    other has; a component is destroyed when its last owner is dropped. -/
inductive Action (Client Ty : Type) where
  | construct (client : Client)
  | make (client : Client) (ty : Ty) (fails : Bool)
  | share (a : Addr)
  | drop (a : Addr)
deriving DecidableEq, Repr

/-- One operation. -/
def step (overrides : Ty → Bool) (s : CplxAt Client Ty) :
    Action Client Ty → Option (CplxAt Client Ty)
  | .construct client =>
    if (s.comps client).isSome then none
    else some { s with comps := Function.update s.comps client (some []) }
  | .make client ty fails =>
    if (s.comps client).isSome then some (make overrides s client ty fails).2 else none
  | .share a =>
    if (s.heap.get a).isSome then some { s with heap := s.heap.acquire a } else none
  | .drop a =>
    if (s.heap.get a).isSome then some { s with heap := s.heap.release a } else none

/-! ### What `make` does -/

section Frame

variable (overrides : Ty → Bool) (s : CplxAt Client Ty) (client : Client) (ty : Ty) (fails : Bool)

/-- Registering handlers touches neither the components nor their registry. -/
theorem initComp_frame :
    (initComp overrides s client ty fails).heap = s.heap ∧
    (initComp overrides s client ty fails).comps = s.comps ∧
    (initComp overrides s client ty fails).made = s.made := by
  by_cases hini : s.inited ty = true
  · simp [initComp, clsInited, hini]
  · cases hurc : onUrcInit overrides ty fails <;> simp [initComp, clsInited, hini, hurc, addUrc]

end Frame

section Make

variable (overrides : Ty → Bool) {s : CplxAt Client Ty} {client : Client} {ty : Ty} (fails : Bool)

/-- With a live component of the type on the list, `make` throws and only prunes the list. -/
theorem make_of_listed (h : Listed s client ty) :
    make overrides s client ty fails = (.error "comp inst already existed",
      { s with comps := Function.update s.comps client
                 (some (scan s.heap ty (compsInThis s client)).1) }) := by
  rw [make]
  exact if_pos ((scan_found_iff _).mpr h)

/-- The state after a `make` that succeeds, but for the flags and the URC tables. -/
theorem make_of_not_listed (h : ¬Listed s client ty) :
    (make overrides s client ty fails).1 = .ok s.heap.next ∧
    (make overrides s client ty fails).2.heap = s.heap.make ⟨client, ty⟩ ∧
    (make overrides s client ty fails).2.comps = Function.update s.comps client
      (some ((scan s.heap ty (compsInThis s client)).1 ++ [s.heap.next])) ∧
    (make overrides s client ty fails).2.made = s.made ++ [⟨client, ty, fails⟩] := by
  have hfound : ¬(scan s.heap ty (compsInThis s client)).2 = true :=
    fun hx => h ((scan_found_iff _).mp hx)
  obtain ⟨hheap, hcomps, hmade⟩ := initComp_frame overrides
    { s with
      comps := Function.update s.comps client (some (scan s.heap ty (compsInThis s client)).1)
      heap := s.heap.make ⟨client, ty⟩ } client ty fails
  rw [make]
  simp only [hfound, Bool.false_eq_true, if_false, hheap, hcomps, hmade, Function.update_idem,
    and_self]

end Make

/-! ### Every operation keeps it -/

section Step

variable {overrides : Ty → Bool} {s s' : CplxAt Client Ty}

/-- A `make` keeps the invariant, whether it throws or not. -/
theorem registered_make (h : Registered s) (client : Client) (ty : Ty) (fails : Bool) :
    Registered (make overrides s client ty fails).2 := by
  have hpruned := h.prune client (scan s.heap ty (compsInThis s client)).1
    (fun a ha => mem_of_mem_scan ha) (fun a comp hget ha => mem_scan_of_live hget ha)
  by_cases hlisted : Listed s client ty
  · rw [make_of_listed overrides fails hlisted]
    exact hpruned
  · obtain ⟨-, hheap, hcomps, -⟩ :=
      make_of_not_listed overrides fails hlisted
    have hnew : ¬∃ a, s.heap.get a = some ⟨client, ty⟩ :=
      fun hx => hlisted ((h.listed_iff client ty).mpr hx)
    have hadded := hpruned.add (Function.update_self _ _ _) hnew
    refine hadded.congr hheap ?_
    rw [hcomps]
    exact (Function.update_idem _ _ _).symm

/-- **Every operation keeps the invariant.** -/
theorem registered_step {a : Action Client Ty} (h : Registered s)
    (hstep : step overrides s a = some s') : Registered s' := by
  cases a with
  | construct client =>
    by_cases hc : (s.comps client).isSome = true
    · simp [CplxAt.step, hc] at hstep
    · simp only [CplxAt.step, hc, Bool.false_eq_true, if_false, Option.some.injEq] at hstep
      subst hstep
      have hnone : s.comps client = none := by simpa using hc
      refine h.prune client [] (by simp) fun a comp _ ha => ?_
      rw [compsInThis, hnone] at ha
      cases ha
  | make client ty fails =>
    by_cases hc : (s.comps client).isSome = true
    · simp only [CplxAt.step, hc, if_true, Option.some.injEq] at hstep
      subst hstep
      exact registered_make h client ty fails
    · simp [CplxAt.step, hc] at hstep
  | share a =>
    by_cases ha : (s.heap.get a).isSome = true
    · simp only [CplxAt.step, ha, if_true, Option.some.injEq] at hstep
      subst hstep
      exact h.mono (next_acquire _ _) fun b comp hb => by rwa [get_acquire] at hb
    · simp [CplxAt.step, ha] at hstep
  | drop a =>
    by_cases ha : (s.heap.get a).isSome = true
    · simp only [CplxAt.step, ha, if_true, Option.some.injEq] at hstep
      subst hstep
      exact h.mono (next_release _ _) fun b comp hb => get_of_get_release hb
    · simp [CplxAt.step, ha] at hstep

/-- Every state a program reaches satisfies it. -/
theorem registered_of_runs {as : List (Action Client Ty)}
    (hrun : Runs (CplxAt.step overrides) anyAction init as s) : Registered s :=
  hrun.invariant Registered (fun _ _ _ h _ hstep => registered_step h hstep) registered_init

end Step

/-! ### What the invariant gives -/

section Results

variable {overrides : Ty → Bool} {s : CplxAt Client Ty}

/-- `make` throws exactly when a component of the type lives on the client. -/
theorem Registered.make_throws_iff (h : Registered s) (client : Client) (ty : Ty) (fails : Bool) :
    (make overrides s client ty fails).1 = .error "comp inst already existed" ↔
      ∃ a, s.heap.get a = some ⟨client, ty⟩ := by
  rw [← h.listed_iff client ty]
  constructor
  · intro hthrow
    by_contra hlisted
    rw [(make_of_not_listed overrides fails hlisted).1] at hthrow
    cases hthrow
  · intro hlisted
    rw [make_of_listed overrides fails hlisted]

end Results

/-- **One live component for each type and client, and the lookup finds it.**  After any
    operations, two live components on one client have different types; on a client with a
    `CplxAt`, `make` throws exactly when a component of the type lives there, and then nothing
    is made or destroyed; and the lookup gives the live component of the type made on that
    client, or null if there is none. -/
theorem one_live_component_per_type_and_client (overrides : Ty → Bool)
    (as : List (Action Client Ty)) (s : CplxAt Client Ty)
    (hrun : Runs (CplxAt.step overrides) anyAction init as s) :
    (∀ a b comp, s.heap.get a = some comp → s.heap.get b = some comp → a = b) ∧
    ∀ client ty, (s.comps client).isSome = true →
      (∀ fails,
        ((make overrides s client ty fails).1 = .error "comp inst already existed" ↔
          ∃ a, s.heap.get a = some ⟨client, ty⟩) ∧
        ((∃ e, (make overrides s client ty fails).1 = .error e) →
          (make overrides s client ty fails).1 = .error "comp inst already existed" ∧
          (make overrides s client ty fails).2.heap = s.heap)) ∧
      ∃ found, getCompFromUrc s ty client = .ok found ∧
        ∀ a, found = some a ↔ s.heap.get a = some ⟨client, ty⟩ := by
  have h := registered_of_runs hrun
  refine ⟨h.unique, fun client ty hc => ⟨fun fails => ⟨h.make_throws_iff client ty fails, ?_⟩,
    h.getCompFromUrc_iff hc ty⟩⟩
  rintro ⟨e, he⟩
  by_cases hlisted : Listed s client ty
  · rw [make_of_listed overrides fails hlisted]
    exact ⟨rfl, rfl⟩
  · rw [(make_of_not_listed overrides fails hlisted).1] at he
    cases he

/-- Two clients and two types: a component is shared, dropped, made again and made on the other
    client too. -/
def sampleOps : List (Action Bool Bool) :=
  [.construct true, .construct false, .make true true false, .make true false true, .share 0,
    .make true true false, .drop 0, .drop 0, .make true true false, .make false true false]

/-- The state they lead to. -/
def lastState : CplxAt Bool Bool :=
  (run (step fun _ => true) init sampleOps).get (by decide)

/-- Two clients and two types: a component is shared, dropped, made again on the same client and
    made on the other one. -/
theorem one_live_component_run :
    (∀ a b comp, (lastState).heap.get a = some comp → lastState.heap.get b = some comp → a = b) ∧
    ∀ client ty, (lastState.comps client).isSome = true →
      (∀ fails,
        ((make (fun _ => true) lastState client ty fails).1
            = .error "comp inst already existed" ↔ ∃ a, lastState.heap.get a = some ⟨client, ty⟩) ∧
        ((∃ e, (make (fun _ => true) lastState client ty fails).1 = .error e) →
          (make (fun _ => true) lastState client ty fails).1
            = .error "comp inst already existed" ∧
          (make (fun _ => true) lastState client ty fails).2.heap = lastState.heap)) ∧
      ∃ found, getCompFromUrc lastState ty client = .ok found ∧
        ∀ a, found = some a ↔ lastState.heap.get a = some ⟨client, ty⟩ :=
  one_live_component_per_type_and_client (fun _ => true) sampleOps lastState
    (runs_get (by decide))

end CplxAt

end RtCharger.Net
