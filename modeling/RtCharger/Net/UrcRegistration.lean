import RtCharger.Net.CplxAt
import Mathlib.Data.List.Induction

namespace RtCharger.Net

open SharedHeap StepSystem

/-!
# Which client gets the URC handlers of a component

`AtCompBase::init` registers the handlers of a component class at most once in the life of the
program: `AtComp::clsInited` is one flag for the class, it is set before the table is built, and
what the build throws is swallowed.  A later `make` on another client, or after a build that
failed, registers nothing.

* `firstMade` — the first successful `make` of a type;
* `Tabled` — the invariant: the tables of a client are those of the types first made there;
* `handlers_registered_iff` — after which histories every `make` has its handlers in place.
-/

namespace CplxAt

variable {Client Ty : Type} [DecidableEq Ty] [DecidableEq Client]

/-- The first successful `make` of a type. -/
def firstMade (made : List (Made Client Ty)) (ty : Ty) : Option (Made Client Ty) :=
  made.find? fun m => decide (m.ty = ty)

/-- How many tables of the class the client has. -/
def tablesOf (s : CplxAt Client Ty) (client : Client) (ty : Ty) : Nat :=
  (s.urcList client).count ty

/-- How many it should have by the history: one if the class was first made there, overrides
    `onUrcBuild` and its build did not fail. -/
def expectedTables (overrides : Ty → Bool) (made : List (Made Client Ty)) (client : Client)
    (ty : Ty) : Nat :=
  match firstMade made ty with
  | none   => 0
  | some m => if m.client = client ∧ overrides ty = true ∧ m.fails = false then 1 else 0

/-- The flag of a class is set once it was made, and the tables are those the history says. -/
structure Tabled (overrides : Ty → Bool) (s : CplxAt Client Ty) : Prop where
  flag : ∀ ty, s.inited ty = (firstMade s.made ty).isSome
  tables : ∀ client ty, tablesOf s client ty = expectedTables overrides s.made client ty

/-! ### The first `make` of a type -/

omit [DecidableEq Client] in
theorem firstMade_append (made rest : List (Made Client Ty)) (ty : Ty) :
    firstMade (made ++ rest) ty = (firstMade made ty).or (firstMade rest ty) :=
  List.find?_append

omit [DecidableEq Client] in
/-- Later calls do not change which one was first. -/
theorem firstMade_of_grows {made made' : List (Made Client Ty)} (h : made <+: made') {ty : Ty}
    {m : Made Client Ty} (hm : firstMade made ty = some m) : firstMade made' ty = some m := by
  obtain ⟨rest, rfl⟩ := h
  rw [firstMade_append, hm]
  rfl

omit [DecidableEq Client] in
/-- A type that was made was first made at some time. -/
theorem exists_firstMade {made : List (Made Client Ty)} {m : Made Client Ty} (hm : m ∈ made) :
    ∃ m₀, firstMade made m.ty = some m₀ := by
  cases hfirst : firstMade made m.ty with
  | some m₀ => exact ⟨m₀, rfl⟩
  | none =>
    have := List.find?_eq_none.mp hfirst m hm
    simp at this

/-! ### What registering does -/

section Register

variable (overrides : Ty → Bool) (s : CplxAt Client Ty) (client : Client) (ty : Ty) (fails : Bool)

/-- A class whose flag is set registers nothing. -/
theorem initComp_of_inited (h : s.inited ty = true) :
    initComp overrides s client ty fails = s := by
  simp [initComp, clsInited, h]

/-- A class whose flag is clear sets it, and registers its table if there is one. -/
theorem initComp_of_not_inited (h : s.inited ty = false) :
    (initComp overrides s client ty fails).inited = Function.update s.inited ty true ∧
    (initComp overrides s client ty fails).urcList =
      if overrides ty = true ∧ fails = false then
        Function.update s.urcList client (s.urcList client ++ [ty])
      else s.urcList := by
  cases hover : overrides ty <;> cases fails <;>
    simp [initComp, clsInited, h, onUrcInit, hover, addUrc]

end Register

variable {overrides : Ty → Bool} {s s' : CplxAt Client Ty}

/-- A `make` that succeeds, seen by the flags and the tables: they are those that `initComp`
    leaves. -/
theorem make_registers (overrides : Ty → Bool) {client : Client} {ty : Ty} (fails : Bool) (h : ¬Listed s client ty) :
    (make overrides s client ty fails).2.inited
      = (initComp overrides s client ty fails).inited ∧
    (make overrides s client ty fails).2.urcList
      = (initComp overrides s client ty fails).urcList := by
  have hfound : ¬(scan s.heap ty (compsInThis s client)).2 = true :=
    fun hx => h ((scan_found_iff _).mp hx)
  rw [make]
  simp only [hfound, Bool.false_eq_true, if_false]
  cases hini : s.inited ty <;> cases hurc : onUrcInit overrides ty fails <;>
    simp [initComp, clsInited, hini, hurc, addUrc]

/-- A `make` of a type that was made before registers nothing. -/
theorem Tabled.make_again (h : Tabled overrides s) {client : Client} {ty : Ty} {fails : Bool}
    (hnew : ¬Listed s client ty) (hini : s.inited ty = true) :
    Tabled overrides (make overrides s client ty fails).2 := by
  obtain ⟨-, -, -, hmade⟩ := make_of_not_listed overrides fails hnew
  obtain ⟨hflags, htables⟩ := make_registers overrides fails hnew
  rw [initComp_of_inited _ _ _ _ _ hini] at hflags htables
  -- the history has an earlier `make` of the type, which stays the first
  have hsame : ∀ ty', firstMade (s.made ++ [⟨client, ty, fails⟩]) ty' = firstMade s.made ty' := by
    intro ty'
    rw [firstMade_append]
    by_cases hty : ty = ty'
    · subst hty
      have hsome := h.flag ty
      rw [hini] at hsome
      obtain ⟨m, hm⟩ := Option.isSome_iff_exists.mp hsome.symm
      rw [hm]
      rfl
    · simp [firstMade, hty]
  refine ⟨fun ty' => ?_, fun c ty' => ?_⟩
  · rw [hflags, hmade, hsame]
    exact h.flag ty'
  · rw [tablesOf, htables, hmade, expectedTables, hsame]
    exact h.tables c ty'

/-- The first `make` of a type registers its table, if there is one. -/
theorem Tabled.make_first (h : Tabled overrides s) {client : Client} {ty : Ty} {fails : Bool}
    (hnew : ¬Listed s client ty) (hini : s.inited ty = false) :
    Tabled overrides (make overrides s client ty fails).2 := by
  obtain ⟨-, -, -, hmade⟩ := make_of_not_listed overrides fails hnew
  obtain ⟨hflags, htables⟩ := make_registers overrides fails hnew
  obtain ⟨hset, hadd⟩ := initComp_of_not_inited overrides s client ty fails hini
  rw [hset] at hflags
  rw [hadd] at htables
  have hnone : firstMade s.made ty = none := by
    have hsome := h.flag ty
    rw [hini] at hsome
    simpa using hsome.symm
  have hzero : ∀ c, (s.urcList c).count ty = 0 := by
    intro c
    have := h.tables c ty
    rwa [expectedTables, hnone] at this
  have hother : ∀ ty', ty ≠ ty' →
      firstMade (s.made ++ [⟨client, ty, fails⟩]) ty' = firstMade s.made ty' := by
    intro ty' hne
    rw [firstMade_append]
    simp [firstMade, hne]
  have hself : firstMade (s.made ++ [⟨client, ty, fails⟩]) ty = some ⟨client, ty, fails⟩ := by
    rw [firstMade_append, hnone]
    simp [firstMade]
  refine ⟨fun ty' => ?_, fun c ty' => ?_⟩
  · rw [hflags, hmade]
    by_cases hty : ty = ty'
    · subst hty
      rw [hself]
      simp
    · rw [hother ty' hty, Function.update_of_ne (Ne.symm hty)]
      exact h.flag ty'
  · rw [tablesOf, htables, hmade, expectedTables]
    by_cases hty : ty = ty'
    · -- its own table: there was none anywhere, and now there is one on this client at most
      subst hty
      rw [hself]
      by_cases hreg : overrides ty = true ∧ fails = false
      · by_cases hc : c = client
        · subst hc
          simp [hreg, hzero]
        · simp [hreg, hc, hzero, Ne.symm hc]
      · simp [hreg, hzero]
    · rw [hother ty' hty]
      have hold := h.tables c ty'
      rw [tablesOf, expectedTables] at hold
      rw [← hold]
      by_cases hreg : overrides ty = true ∧ fails = false
      · by_cases hc : c = client
        · subst hc
          simp [hreg, hty]
        · simp [hreg, hc]
      · simp [hreg]

/-- **A successful `make` keeps the invariant.** -/
theorem Tabled.make_new (h : Tabled overrides s) {client : Client} {ty : Ty} {fails : Bool}
    (hnew : ¬Listed s client ty) : Tabled overrides (make overrides s client ty fails).2 := by
  cases hini : s.inited ty with
  | true  => exact h.make_again hnew hini
  | false => exact h.make_first hnew hini

/-! ### Whole histories -/

/-- The invariant is about the flags, the tables and the history only. -/
theorem Tabled.congr (h : Tabled overrides s) (hinited : s'.inited = s.inited)
    (hurc : s'.urcList = s.urcList) (hmade : s'.made = s.made) : Tabled overrides s' :=
  ⟨fun ty => by rw [hinited, hmade]; exact h.flag ty,
    fun c ty => by rw [tablesOf, hurc, hmade]; exact h.tables c ty⟩

/-- What one operation adds to the history: nothing, or the `make` that it is. -/
theorem step_made {a : Action Client Ty} (hstep : step overrides s a = some s') :
    (s'.inited = s.inited ∧ s'.urcList = s.urcList ∧ s'.made = s.made) ∨
    ∃ client ty fails, a = .make client ty fails ∧ ¬Listed s client ty ∧
      s' = (make overrides s client ty fails).2 := by
  cases a with
  | construct client =>
    by_cases hc : (s.comps client).isSome = true
    · simp [step, hc] at hstep
    · simp only [step, hc, Bool.false_eq_true, if_false, Option.some.injEq] at hstep
      subst hstep
      exact .inl ⟨rfl, rfl, rfl⟩
  | make client ty fails =>
    by_cases hc : (s.comps client).isSome = true
    · simp only [step, hc, if_true, Option.some.injEq] at hstep
      subst hstep
      by_cases hlisted : Listed s client ty
      · rw [make_of_listed overrides _ hlisted]
        exact .inl ⟨rfl, rfl, rfl⟩
      · exact .inr ⟨client, ty, fails, rfl, hlisted, rfl⟩
    · simp [step, hc] at hstep
  | share a =>
    by_cases ha : (s.heap.get a).isSome = true
    · simp only [step, ha, if_true, Option.some.injEq] at hstep
      subst hstep
      exact .inl ⟨rfl, rfl, rfl⟩
    · simp [step, ha] at hstep
  | drop a =>
    by_cases ha : (s.heap.get a).isSome = true
    · simp only [step, ha, if_true, Option.some.injEq] at hstep
      subst hstep
      exact .inl ⟨rfl, rfl, rfl⟩
    · simp [step, ha] at hstep

theorem tabled_init (overrides : Ty → Bool) : Tabled overrides (init : CplxAt Client Ty) :=
  ⟨fun _ => rfl, fun _ _ => rfl⟩

/-- **Every operation keeps the invariant.** -/
theorem Tabled.step {a : Action Client Ty} (h : Tabled overrides s)
    (hstep : step overrides s a = some s') : Tabled overrides s' := by
  rcases step_made hstep with ⟨hinited, hurc, hmade⟩ | ⟨client, ty, fails, -, hnew, rfl⟩
  · exact h.congr hinited hurc hmade
  · exact h.make_new hnew

/-- Every state a program reaches satisfies it. -/
theorem tabled_of_run {as : List (Action Client Ty)}
    (hrun : run (CplxAt.step overrides) init as = some s) : Tabled overrides s :=
  (runs_of_run hrun).invariant (Tabled overrides) (fun _ _ _ h _ hstep => h.step hstep)
    (tabled_init overrides)

/-- The history only grows. -/
theorem made_grows {as : List (Action Client Ty)}
    (hrun : run (CplxAt.step overrides) s as = some s') : s.made <+: s'.made := by
  induction as generalizing s with
  | nil => cases hrun; exact List.prefix_refl _
  | cons a as ih =>
    obtain ⟨t, hstep, hrest⟩ := Option.bind_eq_some_iff.mp hrun
    refine List.IsPrefix.trans ?_ (ih hrest)
    rcases step_made hstep with ⟨-, -, hmade⟩ | ⟨client, ty, fails, -, hnew, rfl⟩
    · exact ⟨[], by rw [List.append_nil, hmade]⟩
    · rw [(make_of_not_listed overrides _ hnew).2.2.2]
      exact List.prefix_append _ _

/-- A `make` succeeds exactly when no component of the type is listed. -/
theorem not_listed_of_ok {client : Client} {ty : Ty} {fails : Bool} {a : Addr}
    (hok : (make overrides s client ty fails).1 = .ok a) : ¬Listed s client ty := by
  intro hlisted
  rw [make_of_listed overrides _ hlisted] at hok
  cases hok

/-- Every entry of the history is a successful `make` of the program. -/
theorem exists_make_of_made {as : List (Action Client Ty)}
    (hrun : run (CplxAt.step overrides) init as = some s) {m : Made Client Ty} (hm : m ∈ s.made) :
    ∃ pre s₀ a, pre ++ [.make m.client m.ty m.fails] <+: as ∧
      run (CplxAt.step overrides) init pre = some s₀ ∧
      (make overrides s₀ m.client m.ty m.fails).1 = .ok a := by
  induction as using List.reverseRecOn generalizing s with
  | nil => cases hrun; cases hm
  | append_singleton as a ih =>
    rw [run_append] at hrun
    obtain ⟨t, ht, hlast⟩ := Option.bind_eq_some_iff.mp hrun
    obtain ⟨t', hstep, hnil⟩ := Option.bind_eq_some_iff.mp hlast
    cases hnil
    have hearlier : m ∈ t.made → ∃ pre s₀ b, pre ++ [.make m.client m.ty m.fails] <+: as ++ [a] ∧
        run (CplxAt.step overrides) init pre = some s₀ ∧
        (make overrides s₀ m.client m.ty m.fails).1 = .ok b := by
      intro hmem
      obtain ⟨pre, s₀, b, hpre, hrun₀, hok⟩ := ih ht hmem
      exact ⟨pre, s₀, b, hpre.trans (List.prefix_append _ _), hrun₀, hok⟩
    rcases step_made hstep with ⟨-, -, hmade⟩ | ⟨client, ty, fails, rfl, hnew, rfl⟩
    · rw [hmade] at hm
      exact hearlier hm
    · obtain ⟨hok, -, -, hmade⟩ := make_of_not_listed overrides fails hnew
      rw [hmade] at hm
      rcases List.mem_append.mp hm with hmem | hmem
      · exact hearlier hmem
      · cases List.mem_singleton.mp hmem
        exact ⟨as, t, _, List.prefix_refl _, ht, hok⟩

/-- After a successful `make` of a type that overrides `onUrcBuild`, its handlers are there
    exactly once iff the first `make` of the type was on the same client and built its table. -/
theorem tablesOf_make_iff (h : Tabled overrides s) {client : Client} {ty : Ty} {fails : Bool}
    {a : Addr} (hok : (make overrides s client ty fails).1 = .ok a) (hover : overrides ty = true)
    {m₀ : Made Client Ty}
    (hfirst : firstMade (make overrides s client ty fails).2.made ty = some m₀) :
    tablesOf (make overrides s client ty fails).2 client ty = 1 ↔
      m₀.client = client ∧ m₀.fails = false := by
  rw [(h.make_new (not_listed_of_ok hok)).tables client ty, expectedTables, hfirst]
  by_cases hcond : m₀.client = client ∧ m₀.fails = false <;> simp [hover, hcond]

/-- Every successful `make` of a type that overrides `onUrcBuild` is on the client where the
    type was first made, and the table built there did not fail. -/
def MadeWhereFirstRegistered (overrides : Ty → Bool) (made : List (Made Client Ty)) : Prop :=
  ∀ m ∈ made, overrides m.ty = true →
    ∃ m₀, firstMade made m.ty = some m₀ ∧ m₀.client = m.client ∧ m₀.fails = false

/-- A program that goes on after a `make` goes on from the state that `make` leaves. -/
theorem run_after_make {pre rest : List (Action Client Ty)} {s₀ : CplxAt Client Ty}
    {client : Client} {ty : Ty} {fails : Bool}
    (hrun₀ : run (CplxAt.step overrides) init pre = some s₀)
    (hrun : run (CplxAt.step overrides) init (pre ++ [.make client ty fails] ++ rest) = some s) :
    run (CplxAt.step overrides) (make overrides s₀ client ty fails).2 rest = some s := by
  rw [run_append, run_snoc hrun₀] at hrun
  obtain ⟨t, hstep, hrest⟩ := Option.bind_eq_some_iff.mp hrun
  by_cases hc : (s₀.comps client).isSome = true
  · simp only [CplxAt.step, hc, if_true, Option.some.injEq] at hstep
    rw [hstep]
    exact hrest
  · simp [CplxAt.step, hc] at hstep

/-- The first `make` of the type of a `make` that succeeded, by the history at the end. -/
theorem exists_firstMade_of_make {pre rest : List (Action Client Ty)} {s₀ : CplxAt Client Ty}
    {client : Client} {ty : Ty} {fails : Bool} {a : Addr}
    (hrun₀ : run (CplxAt.step overrides) init pre = some s₀)
    (hok : (make overrides s₀ client ty fails).1 = .ok a)
    (hrun : run (CplxAt.step overrides) init (pre ++ [.make client ty fails] ++ rest) = some s) :
    ⟨client, ty, fails⟩ ∈ s.made ∧ ∃ m₀, firstMade s.made ty = some m₀ ∧
      firstMade (make overrides s₀ client ty fails).2.made ty = some m₀ := by
  have hgrows := made_grows (run_after_make hrun₀ hrun)
  have hmem : (⟨client, ty, fails⟩ : Made Client Ty)
      ∈ (make overrides s₀ client ty fails).2.made := by
    rw [(make_of_not_listed overrides _ (not_listed_of_ok hok)).2.2.2]
    exact List.mem_append_right _ List.mem_cons_self
  obtain ⟨m₀, hfirst⟩ := exists_firstMade hmem
  exact ⟨hgrows.subset hmem, m₀, firstMade_of_grows hgrows hfirst, hfirst⟩

/-- Every successful `make` in the history, of a type that overrides `onUrcBuild`, leaves the
    handlers of the type exactly once in the URC table of the client. -/
def HandlersRegistered (overrides : Ty → Bool) (as : List (Action Client Ty)) : Prop :=
  ∀ pre client ty fails s₀ a, pre ++ [.make client ty fails] <+: as →
    run (CplxAt.step overrides) init pre = some s₀ →
    (make overrides s₀ client ty fails).1 = .ok a → overrides ty = true →
    tablesOf (make overrides s₀ client ty fails).2 client ty = 1

/-- **When every component has its handlers.**  Every successful `make` of a type that overrides
    `onUrcBuild` has the handlers in place, if and only if each of them is on the client where
    the type was first made and that first build did not fail. -/
theorem handlers_registered_iff (overrides : Ty → Bool) (as : List (Action Client Ty))
    (s : CplxAt Client Ty) (hrun : run (CplxAt.step overrides) init as = some s) :
    HandlersRegistered overrides as ↔ MadeWhereFirstRegistered overrides s.made := by
  constructor
  · intro hall m hm hover
    obtain ⟨pre, s₀, a, hpre, hrun₀, hok⟩ := exists_make_of_made hrun hm
    have hcount := hall pre m.client m.ty m.fails s₀ a hpre hrun₀ hok hover
    obtain ⟨rest, rfl⟩ := hpre
    obtain ⟨-, m₀, hlast, hfirst⟩ := exists_firstMade_of_make hrun₀ hok hrun
    exact ⟨m₀, hlast, (tablesOf_make_iff (tabled_of_run hrun₀) hok hover hfirst).mp hcount⟩
  · intro hcond pre client ty fails s₀ a hpre hrun₀ hok hover
    obtain ⟨rest, rfl⟩ := hpre
    obtain ⟨hmem, m₀, hlast, hfirst⟩ := exists_firstMade_of_make hrun₀ hok hrun
    obtain ⟨m₁, hm₁, hthere⟩ := hcond _ hmem hover
    rw [hlast, Option.some.injEq] at hm₁
    subst hm₁
    exact (tablesOf_make_iff (tabled_of_run hrun₀) hok hover hfirst).mpr hthere

/-- A type made, dropped and made again on one client. -/
def madeTwice : List (Action Bool Unit) :=
  [.construct true, .make true () false, .drop 0, .make true () false]

/-- Each `make` finds the handlers there once. -/
theorem made_twice_registered : HandlersRegistered (fun _ => true) madeTwice := by
  refine (handlers_registered_iff (fun _ => true) madeTwice
    ((run (CplxAt.step fun _ => true) init madeTwice).getD init) rfl).mpr ?_
  intro m hm _
  have hclient : ∀ m ∈ [(⟨true, (), false⟩ : Made Bool Unit), ⟨true, (), false⟩],
      m.client = true := by decide
  exact ⟨⟨true, (), false⟩, rfl, (hclient m hm).symm, rfl⟩

/-- A type made on two clients. -/
def madeOnTwoClients : List (Action Bool Unit) :=
  [.construct true, .construct false, .make true () false, .make false () false]

/-- The second client gets no handlers. -/
theorem second_client_gets_no_handlers :
    ¬HandlersRegistered (fun _ => true) madeOnTwoClients := by
  intro hall
  have hcount := hall (madeOnTwoClients.take 3) false () false _ _ (List.prefix_refl _) rfl rfl rfl
  cases hcount

end CplxAt

end RtCharger.Net
