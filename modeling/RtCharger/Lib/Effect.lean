import Mathlib.Data.List.Forall2

namespace Effect

/-!
# Computations with exceptions and destructors

A computation takes a state, leaves a state behind and ends in one of four ways: it returns a
value, it throws, it ends the program, or its behaviour is undefined.  Unlike a state
transformer on top of exceptions it keeps what was done to the state before a throw, which is
what a handler or a destructor that runs during unwinding sees.

* `tryCatch` — `try { … } catch (…) { … }` for the exceptions a clause takes;
* `inScope` — a body followed by a destructor, which runs however the body ends and may not
  throw;
* `onUnwind` — the same when the object leaves with what the body returns;
* `forEach` — a loop over a list;
* `run_…` — one rule for each construct and each way its first part can end.
-/

/-- How a computation ends. -/
inductive Outcome (ε α : Type) where
  | returned (a : α)
  | threw (e : ε)
  /-- `std::terminate`. -/
  | terminated
  /-- Anything may happen. -/
  | undefined
deriving DecidableEq, Repr

/-- A computation on states `σ` that may throw an `ε`. -/
def Comp (ε σ α : Type) : Type := σ → Outcome ε α × σ

variable {ε σ α β ι : Type}

/-! ### The operations -/

/-- Run a computation from a state. -/
def Comp.run (c : Comp ε σ α) (s : σ) : Outcome ε α × σ := c s

/-- Go on after a computation that returned. -/
def Comp.bind (c : Comp ε σ α) (f : α → Comp ε σ β) : Comp ε σ β := fun s =>
  match c s with
  | (.returned a, s') => f a s'
  | (.threw e, s')    => (.threw e, s')
  | (.terminated, s') => (.terminated, s')
  | (.undefined, s')  => (.undefined, s')

instance : Monad (Comp ε σ) where
  pure a := fun s => (.returned a, s)
  bind := Comp.bind

/-- `throw e`. -/
def raise (e : ε) : Comp ε σ α := fun s => (.threw e, s)

/-- Undefined behaviour. -/
def undefinedBehaviour : Comp ε σ α := fun s => (.undefined, s)

/-- A computation that touches no state. -/
def ofOutcome (o : Outcome ε α) : Comp ε σ α := fun s => (o, s)

/-- A value that is there, or undefined behaviour. -/
def ofOption : Option α → Comp ε σ α
  | some a => pure a
  | none   => undefinedBehaviour

/-- A result, or an exception. -/
def ofExcept : Except ε α → Comp ε σ α
  | .ok a    => pure a
  | .error e => raise e

/-- A computation on a local variable, which starts as `t`; its last value is returned too. -/
def withLocal {τ : Type} (t : τ) (c : Comp ε τ α) : Comp ε σ (α × τ) := fun s =>
  match c t with
  | (.returned a, t') => (.returned (a, t'), s)
  | (.threw e, _)     => (.threw e, s)
  | (.terminated, _)  => (.terminated, s)
  | (.undefined, _)   => (.undefined, s)

/-- Read the state. -/
def getState : Comp ε σ σ := fun s => (.returned s, s)

/-- Change the state. -/
def modifyState (f : σ → σ) : Comp ε σ Unit := fun s => (.returned (), f s)

/-- Change the state, or throw and leave it as it is. -/
def updateState (f : σ → Except ε σ) : Comp ε σ Unit := fun s =>
  match f s with
  | .ok s'   => (.returned (), s')
  | .error e => (.threw e, s)

/-- `try { body } catch (…) { handler }`, where the clause takes the exceptions that
    satisfy `p`. -/
def tryCatch (p : ε → Bool) (body : Comp ε σ α) (handler : ε → Comp ε σ α) : Comp ε σ α :=
  fun s =>
    match body s with
    | (.threw e, s') => if p e then handler e s' else (.threw e, s')
    | r              => r

/-- A body in the scope of an object with the destructor `dtor`.  The destructor runs when the
    body has returned and while an exception of the body unwinds; an exception that leaves the
    destructor ends the program. -/
def inScope (dtor : Comp ε σ Unit) (body : Comp ε σ α) : Comp ε σ α := fun s =>
  match body s with
  | (.terminated, s') => (.terminated, s')
  | (.undefined, s')  => (.undefined, s')
  | (o, s')           =>
    match dtor s' with
    | (.returned _, s'') => (o, s'')
    | (.threw _, s'')    => (.terminated, s'')
    | (.terminated, s'') => (.terminated, s'')
    | (.undefined, s'')  => (.undefined, s'')

/-- A body that hands an object with the destructor `dtor` over when it returns: the destructor
    runs only while an exception of the body unwinds. -/
def onUnwind (dtor : Comp ε σ Unit) (body : Comp ε σ α) : Comp ε σ α := fun s =>
  match body s with
  | (.threw e, s') =>
    match dtor s' with
    | (.returned _, s'') => (.threw e, s'')
    | (.threw _, s'')    => (.terminated, s'')
    | (.terminated, s'') => (.terminated, s'')
    | (.undefined, s'')  => (.undefined, s'')
  | r              => r

/-- `for (const auto& x: xs) body(x)`. -/
def forEach : List ι → (ι → Comp ε σ Unit) → Comp ε σ Unit
  | [], _         => pure ()
  | x :: xs, body => body x >>= fun _ => forEach xs body

/-! ### Running them -/

@[simp] theorem run_pure (a : α) (s : σ) :
    (pure a : Comp ε σ α).run s = (.returned a, s) := rfl

@[simp] theorem run_raise (e : ε) (s : σ) :
    (raise e : Comp ε σ α).run s = (.threw e, s) := rfl

@[simp] theorem run_undefinedBehaviour (s : σ) :
    (undefinedBehaviour : Comp ε σ α).run s = (.undefined, s) := rfl

@[simp] theorem run_ofOutcome (o : Outcome ε α) (s : σ) :
    (ofOutcome o : Comp ε σ α).run s = (o, s) := rfl

@[simp] theorem run_ofOption_some (a : α) (s : σ) :
    (ofOption (some a) : Comp ε σ α).run s = (.returned a, s) := rfl

theorem run_withLocal_returned {τ : Type} {c : Comp ε τ α} {t t' : τ} {a : α}
    (h : c.run t = (.returned a, t')) (s : σ) :
    (withLocal t c).run s = (.returned (a, t'), s) := by
  have hc : c t = (.returned a, t') := h
  simp only [Comp.run, withLocal, hc]

theorem run_withLocal_threw {τ : Type} {c : Comp ε τ α} {t t' : τ} {e : ε}
    (h : c.run t = (.threw e, t')) (s : σ) : (withLocal t c).run s = (.threw e, s) := by
  have hc : c t = (.threw e, t') := h
  simp only [Comp.run, withLocal, hc]

@[simp] theorem run_getState (s : σ) : (getState : Comp ε σ σ).run s = (.returned s, s) := rfl

@[simp] theorem run_modifyState (f : σ → σ) (s : σ) :
    (modifyState f : Comp ε σ Unit).run s = (.returned (), f s) := rfl

theorem run_bind (c : Comp ε σ α) (f : α → Comp ε σ β) (s : σ) :
    (c >>= f).run s =
      match c.run s with
      | (.returned a, s') => (f a).run s'
      | (.threw e, s')    => (.threw e, s')
      | (.terminated, s') => (.terminated, s')
      | (.undefined, s')  => (.undefined, s') := rfl

theorem run_bind_returned {c : Comp ε σ α} {s s' : σ} {a : α} (h : c.run s = (.returned a, s'))
    (f : α → Comp ε σ β) : (c >>= f).run s = (f a).run s' := by
  rw [run_bind, h]

theorem run_bind_threw {c : Comp ε σ α} {s s' : σ} {e : ε} (h : c.run s = (.threw e, s'))
    (f : α → Comp ε σ β) : (c >>= f).run s = (.threw e, s') := by
  rw [run_bind, h]

/-- **A sequence returns** exactly when both of its parts do. -/
theorem run_bind_returned_iff {c : Comp ε σ α} {f : α → Comp ε σ β} {s s' : σ} {b : β} :
    (c >>= f).run s = (.returned b, s') ↔
      ∃ a s₁, c.run s = (.returned a, s₁) ∧ (f a).run s₁ = (.returned b, s') := by
  constructor
  · intro h
    rw [run_bind] at h
    rcases hc : c.run s with ⟨o, s₁⟩
    rw [hc] at h
    cases o with
    | returned a => exact ⟨a, s₁, rfl, h⟩
    | threw e => cases h
    | terminated => cases h
    | undefined => cases h
  · rintro ⟨a, s₁, hc, hf⟩
    rw [run_bind_returned hc]
    exact hf

/-- What has returned is in one state. -/
theorem returned_eq_iff {a : α} {s s' : σ} :
    ((.returned a, s) : Outcome ε α × σ) = (.returned a, s') ↔ s' = s := by
  constructor
  · intro h
    cases h
    rfl
  · rintro rfl
    rfl

/-- **A computation with a guard** returns exactly when the guard holds and it returns. -/
theorem run_guarded_iff {p : Prop} [Decidable p] {c : Comp ε σ α} {e : ε} {s s' : σ} {a : α} :
    (if p then c else raise e).run s = (.returned a, s') ↔ p ∧ c.run s = (.returned a, s') := by
  split_ifs with hp
  · exact (and_iff_right hp).symm
  · constructor
    · intro h
      cases h
    · rintro ⟨h, -⟩
      exact absurd h hp

/-- **Results in sequence**: the last one is there exactly when both are. -/
theorem bind_eq_ok_iff {x : Except ε α} {f : α → Except ε β} {b : β} :
    x >>= f = .ok b ↔ ∃ a, x = .ok a ∧ f a = .ok b := by
  cases x with
  | error err =>
    constructor
    · intro h
      cases h
    · rintro ⟨a, h, -⟩
      cases h
  | ok a =>
    constructor
    · intro h
      exact ⟨a, rfl, h⟩
    · rintro ⟨a', h, hf⟩
      cases h
      exact hf

/-- What is done with a result does not matter for there being one. -/
theorem exists_bind_pure_iff {x : Except ε α} {f : α → β} :
    (∃ b, (x >>= fun a => pure (f a)) = .ok b) ↔ ∃ a, x = .ok a := by
  constructor
  · rintro ⟨b, h⟩
    obtain ⟨a, ha, -⟩ := bind_eq_ok_iff.mp h
    exact ⟨a, ha⟩
  · rintro ⟨a, ha⟩
    exact ⟨f a, bind_eq_ok_iff.mpr ⟨a, ha, rfl⟩⟩

/-- All of them have a result exactly if each has. -/
theorem exists_mapM_eq_ok_iff {f : ι → Except ε β} {xs : List ι} :
    (∃ ys, xs.mapM f = .ok ys) ↔ ∀ x ∈ xs, ∃ y, f x = .ok y := by
  induction xs with
  | nil => exact ⟨fun _ _ h => absurd h List.not_mem_nil, fun _ => ⟨[], rfl⟩⟩
  | cons x xs ih =>
    rw [List.mapM_cons, List.forall_mem_cons, ← ih]
    constructor
    · rintro ⟨ys, h⟩
      obtain ⟨y, hy, hrest⟩ := bind_eq_ok_iff.mp h
      exact ⟨⟨y, hy⟩, exists_bind_pure_iff.mp ⟨ys, hrest⟩⟩
    · rintro ⟨⟨y, hy⟩, hxs⟩
      obtain ⟨ys, hys⟩ := exists_bind_pure_iff.mpr hxs
      exact ⟨ys, bind_eq_ok_iff.mpr ⟨y, hy, hys⟩⟩

/-- What is collected of the results can be collected of the elements. -/
theorem filterMap_of_mapM_eq_ok {f : ι → Except ε β} {g : β → Option α} {h : ι → Option α}
    (hfg : ∀ x y, f x = .ok y → g y = h x) {xs : List ι} {ys : List β}
    (hys : xs.mapM f = .ok ys) : ys.filterMap g = xs.filterMap h := by
  induction xs generalizing ys with
  | nil =>
    cases hys
    rfl
  | cons x xs ih =>
    rw [List.mapM_cons] at hys
    obtain ⟨y, hy, hrest⟩ := bind_eq_ok_iff.mp hys
    obtain ⟨ys', hys', heq⟩ := bind_eq_ok_iff.mp hrest
    cases heq
    rw [List.filterMap_cons, List.filterMap_cons, hfg x y hy, ih hys']

theorem run_ofExcept_returned_iff {x : Except ε α} {s s' : σ} {a : α} :
    (ofExcept x : Comp ε σ α).run s = (.returned a, s') ↔ x = .ok a ∧ s' = s := by
  cases x with
  | ok b =>
    constructor
    · intro h
      cases h
      exact ⟨rfl, rfl⟩
    · rintro ⟨h, rfl⟩
      cases h
      rfl
  | error e =>
    constructor
    · intro h
      cases h
    · rintro ⟨h, -⟩
      cases h

theorem run_updateState_returned_iff {f : σ → Except ε σ} {s s' : σ} :
    (updateState f).run s = (.returned (), s') ↔ f s = .ok s' := by
  show updateState f s = _ ↔ _
  rw [updateState]
  cases f s with
  | ok s₁ => exact returned_eq_iff.trans ⟨fun h => h ▸ rfl, fun h => (Except.ok.inj h).symm⟩
  | error e =>
    constructor
    · intro h
      cases h
    · intro h
      cases h

/-- **A comprehension** has a result exactly if each condition has one, and it is the elements for
    which the condition, whatever it may throw otherwise, is `p`. -/
theorem filterM_eq_ok_iff {f : ι → Except ε Bool} {p : ι → Bool} {xs ys : List ι}
    (hp : ∀ x ∈ xs, ∀ b, f x = .ok b → b = p x) :
    xs.filterM f = .ok ys ↔ (∀ x ∈ xs, ∃ b, f x = .ok b) ∧ ys = xs.filter p := by
  have haux : ∀ zs acc, xs.filterAuxM f acc = .ok zs ↔
      (∀ x ∈ xs, ∃ b, f x = .ok b) ∧ zs = (xs.filter p).reverse ++ acc := by
    intro zs
    induction xs with
    | nil =>
      intro acc
      constructor
      · intro h
        exact ⟨fun _ hx => absurd hx List.not_mem_nil, (Except.ok.inj h).symm⟩
      · rintro ⟨-, rfl⟩
        rfl
    | cons x xs ih =>
      intro acc
      obtain ⟨hpx, hpxs⟩ := List.forall_mem_cons.mp hp
      rw [List.filterAuxM, List.forall_mem_cons, bind_eq_ok_iff]
      constructor
      · rintro ⟨b, hb, hrest⟩
        obtain rfl := hpx b hb
        obtain ⟨hall, rfl⟩ := (ih hpxs _).mp hrest
        refine ⟨⟨⟨_, hb⟩, hall⟩, ?_⟩
        cases hpx' : p x <;> simp [hpx']
      · rintro ⟨⟨⟨b, hb⟩, hall⟩, rfl⟩
        obtain rfl := hpx b hb
        refine ⟨_, hb, (ih hpxs _).mpr ⟨hall, ?_⟩⟩
        cases hpx' : p x <;> simp [hpx']
  -- `filterM` collects in reverse
  rw [List.filterM, bind_eq_ok_iff]
  constructor
  · rintro ⟨zs, hzs, hys⟩
    obtain ⟨hall, rfl⟩ := (haux zs []).mp hzs
    refine ⟨hall, ?_⟩
    rw [← Except.ok.inj hys, List.append_nil, List.reverse_reverse]
  · rintro ⟨hall, rfl⟩
    refine ⟨_, (haux _ []).mpr ⟨hall, rfl⟩, ?_⟩
    rw [List.append_nil, List.reverse_reverse]
    rfl

theorem run_tryCatch_returned {p : ε → Bool} {body : Comp ε σ α} {s s' : σ} {a : α}
    (h : body.run s = (.returned a, s')) (handler : ε → Comp ε σ α) :
    (tryCatch p body handler).run s = (.returned a, s') := by
  have hbody : body s = (.returned a, s') := h
  simp only [Comp.run, tryCatch, hbody]

theorem run_tryCatch_threw {p : ε → Bool} {body : Comp ε σ α} {s s' : σ} {e : ε}
    (h : body.run s = (.threw e, s')) (hp : p e = true) (handler : ε → Comp ε σ α) :
    (tryCatch p body handler).run s = (handler e).run s' := by
  have hbody : body s = (.threw e, s') := h
  simp only [Comp.run, tryCatch, hbody, hp, if_true]

theorem run_tryCatch_terminated {p : ε → Bool} {body : Comp ε σ α} {s s' : σ}
    (h : body.run s = (.terminated, s')) (handler : ε → Comp ε σ α) :
    (tryCatch p body handler).run s = (.terminated, s') := by
  have hbody : body s = (.terminated, s') := h
  simp only [Comp.run, tryCatch, hbody]

theorem run_tryCatch_undefined {p : ε → Bool} {body : Comp ε σ α} {s s' : σ}
    (h : body.run s = (.undefined, s')) (handler : ε → Comp ε σ α) :
    (tryCatch p body handler).run s = (.undefined, s') := by
  have hbody : body s = (.undefined, s') := h
  simp only [Comp.run, tryCatch, hbody]

/-- Only what the body does in this state matters. -/
theorem run_tryCatch_congr {p : ε → Bool} {body body' : Comp ε σ α} {s : σ}
    (h : body.run s = body'.run s) (handler : ε → Comp ε σ α) :
    (tryCatch p body handler).run s = (tryCatch p body' handler).run s := by
  rw [Comp.run, Comp.run] at h
  simp only [Comp.run, tryCatch, h]

theorem run_inScope_returned {dtor : Comp ε σ Unit} {c : Comp ε σ α} {s s' s'' : σ} {a : α}
    (h : c.run s = (.returned a, s')) (hdtor : dtor.run s' = (.returned (), s'')) :
    (inScope dtor c).run s = (.returned a, s'') := by
  have hc : c s = (.returned a, s') := h
  have hd : dtor s' = (.returned (), s'') := hdtor
  simp only [Comp.run, inScope, hc, hd]

theorem run_inScope_threw {dtor : Comp ε σ Unit} {c : Comp ε σ α} {s s' s'' : σ} {e : ε}
    (h : c.run s = (.threw e, s')) (hdtor : dtor.run s' = (.returned (), s'')) :
    (inScope dtor c).run s = (.threw e, s'') := by
  have hc : c s = (.threw e, s') := h
  have hd : dtor s' = (.returned (), s'') := hdtor
  simp only [Comp.run, inScope, hc, hd]

theorem run_onUnwind (dtor : Comp ε σ Unit) (c : Comp ε σ α) (s : σ) :
    (onUnwind dtor c).run s =
      match c.run s with
      | (.threw e, s') =>
        match dtor.run s' with
        | (.returned _, s'') => (.threw e, s'')
        | (.threw _, s'')    => (.terminated, s'')
        | (.terminated, s'') => (.terminated, s'')
        | (.undefined, s'')  => (.undefined, s'')
      | r              => r := rfl

@[simp] theorem run_forEach_nil (body : ι → Comp ε σ Unit) (s : σ) :
    (forEach [] body).run s = (.returned (), s) := rfl

/-- One round of the loop, when its body returns. -/
theorem run_forEach_cons {body : ι → Comp ε σ Unit} {x : ι} {s s' : σ}
    (h : (body x).run s = (.returned (), s')) (xs : List ι) :
    (forEach (x :: xs) body).run s = (forEach xs body).run s' :=
  run_bind_returned h _

/-- A round, and then the others. -/
theorem run_forEach_cons_iff {body : ι → Comp ε σ Unit} {x : ι} {xs : List ι} {s s' : σ} :
    (forEach (x :: xs) body).run s = (.returned (), s') ↔
      ∃ s₁, (body x).run s = (.returned (), s₁) ∧
        (forEach xs body).run s₁ = (.returned (), s') := by
  rw [forEach, run_bind_returned_iff]
  exact ⟨fun ⟨_, s₁, hbody, hloop⟩ => ⟨s₁, hbody, hloop⟩,
    fun ⟨s₁, hbody, hloop⟩ => ⟨(), s₁, hbody, hloop⟩⟩

/-- One loop after the other. -/
theorem run_forEach_append_iff {body : ι → Comp ε σ Unit} {xs ys : List ι} {s s' : σ} :
    (forEach (xs ++ ys) body).run s = (.returned (), s') ↔
      ∃ s₁, (forEach xs body).run s = (.returned (), s₁) ∧
        (forEach ys body).run s₁ = (.returned (), s') := by
  induction xs generalizing s with
  | nil =>
    constructor
    · intro h
      exact ⟨s, rfl, h⟩
    · rintro ⟨s₁, hnil, h⟩
      cases hnil
      exact h
  | cons x xs ih =>
    rw [List.cons_append, run_forEach_cons_iff]
    constructor
    · rintro ⟨s₁, hbody, hloop⟩
      obtain ⟨s₂, hxs, hys⟩ := ih.mp hloop
      exact ⟨s₂, run_forEach_cons_iff.mpr ⟨s₁, hbody, hxs⟩, hys⟩
    · rintro ⟨s₂, hloop, hys⟩
      obtain ⟨s₁, hbody, hxs⟩ := run_forEach_cons_iff.mp hloop
      exact ⟨s₁, hbody, ih.mpr ⟨s₂, hxs, hys⟩⟩

/-- **The whole loop**, when each round returns exactly if the element is `ok`, and then has the
    effect `f`: it keeps the condition `P` on which this rests. -/
theorem run_forEach_returned_iff {body : ι → Comp ε σ Unit} {ok : ι → Prop} {f : ι → σ → σ}
    {P : σ → Prop} (hP : ∀ x s, P s → P (f x s)) {xs : List ι}
    (h : ∀ x ∈ xs, ∀ s s', P s → ((body x).run s = (.returned (), s') ↔ ok x ∧ s' = f x s))
    {s s' : σ} (hs : P s) :
    (forEach xs body).run s = (.returned (), s') ↔
      (∀ x ∈ xs, ok x) ∧ s' = xs.foldl (fun s x => f x s) s := by
  induction xs generalizing s with
  | nil =>
    rw [run_forEach_nil, List.foldl_nil]
    constructor
    · intro heq
      cases heq
      exact ⟨fun _ hx => absurd hx List.not_mem_nil, rfl⟩
    · rintro ⟨-, rfl⟩
      rfl
  | cons x xs ih =>
    rw [List.forall_mem_cons] at h ⊢
    have hrest := ih h.2 (hP x s hs)
    rw [List.foldl_cons]
    constructor
    · intro heq
      obtain ⟨_, s₁, hbody, hloop⟩ := run_bind_returned_iff.mp heq
      obtain ⟨hok, rfl⟩ := (h.1 s s₁ hs).mp hbody
      obtain ⟨hall, hlast⟩ := hrest.mp hloop
      exact ⟨⟨hok, hall⟩, hlast⟩
    · rintro ⟨⟨hok, hall⟩, hlast⟩
      have hbody := (h.1 s _ hs).mpr ⟨hok, rfl⟩
      rw [run_forEach_cons hbody]
      exact hrest.mpr ⟨hall, hlast⟩

/-- **A loop that changes nothing** returns exactly if each round does. -/
theorem run_forEach_idle_iff {body : ι → Comp ε σ Unit} {ok : ι → Prop} {xs : List ι} {s s' : σ}
    (h : ∀ x ∈ xs, ∀ s', (body x).run s = (.returned (), s') ↔ ok x ∧ s' = s) :
    (forEach xs body).run s = (.returned (), s') ↔ (∀ x ∈ xs, ok x) ∧ s' = s := by
  have hloop : (forEach xs body).run s = (.returned (), s') ↔
      (∀ x ∈ xs, ok x) ∧ s' = xs.foldl (fun s _ => s) s :=
    run_forEach_returned_iff (P := (· = s)) (f := fun _ s => s) (fun _ _ hs => hs)
      (fun x hx _ s' hs => hs ▸ h x hx s') rfl
  rw [List.foldl_fixed] at hloop
  exact hloop

/-! ### Outcomes in sequence -/

/-- Go on with what was returned. -/
def Outcome.bind : Outcome ε α → (α → Outcome ε β) → Outcome ε β
  | .returned a, f => f a
  | .threw e, _    => .threw e
  | .terminated, _ => .terminated
  | .undefined, _  => .undefined

instance : Monad (Outcome ε) where
  pure := .returned
  bind := Outcome.bind

instance : LawfulMonad (Outcome ε) :=
  LawfulMonad.mk' (Outcome ε) (fun o => by cases o <;> rfl) (fun _ _ => rfl)
    (fun o _ _ => by cases o <;> rfl)

/-- **All of them return** exactly when each does. -/
theorem mapM_eq_returned_iff {f : ι → Outcome ε β} {xs : List ι} {ys : List β} :
    xs.mapM f = .returned ys ↔ List.Forall₂ (fun x y => f x = .returned y) xs ys := by
  induction xs generalizing ys with
  | nil => cases ys <;> simp [pure]
  | cons x xs ih =>
    rw [List.mapM_cons]
    cases hx : f x with
    | returned y =>
      cases hxs : xs.mapM f <;> cases ys <;>
        simp [bind, Outcome.bind, pure, ← ih, hx, hxs]
    | _ => cases ys <;> simp [bind, Outcome.bind, hx]

/-- It returns or throws. -/
def Outcome.Defined (o : Outcome ε α) : Prop := o ≠ .undefined ∧ o ≠ .terminated

/-- **Until one of them throws, each is defined**: then all of them in sequence are, and not
    otherwise. -/
theorem mapM_defined_iff {f : ι → Outcome ε β} {xs : List ι} :
    (xs.mapM f).Defined ↔ ∀ pre x post, xs = pre ++ x :: post →
      (∀ y ∈ pre, ¬ ∃ e, f y = .threw e) → (f x).Defined := by
  induction xs with
  | nil => simp [Outcome.Defined, pure]
  | cons x xs ih =>
    have hhead : (∀ pre y post, x :: xs = pre ++ y :: post →
          (∀ z ∈ pre, ¬ ∃ e, f z = .threw e) → (f y).Defined) ↔
        (f x).Defined ∧ ((¬ ∃ e, f x = .threw e) → (xs.mapM f).Defined) := by
      rw [ih]
      constructor
      · intro h
        refine ⟨h [] x xs rfl fun _ hz => absurd hz List.not_mem_nil, fun hx pre y post heq hpre => ?_⟩
        exact h (x :: pre) y post (by rw [heq]; rfl) (List.forall_mem_cons.mpr ⟨hx, hpre⟩)
      · rintro ⟨hx, hxs⟩ pre y post heq hpre
        cases pre with
        | nil =>
          cases heq
          exact hx
        | cons z pre =>
          injection heq with hz heq
          subst hz
          obtain ⟨hz, hpre⟩ := List.forall_mem_cons.mp hpre
          exact hxs hz pre y post heq hpre
    rw [hhead, List.mapM_cons]
    cases hx : f x with
    | returned y =>
      cases hxs : xs.mapM f <;> simp [bind, Outcome.bind, Outcome.Defined, pure]
    | _ => simp [bind, Outcome.bind, Outcome.Defined]

/-! ### Standard exceptions -/

/-- What C++ code throws: an object of a class derived from `std::exception`, told apart by
    its `what()`, or anything else. -/
inductive Exn where
  | std (what : String)
  | other
deriving DecidableEq, Repr

/-- `catch (const std::exception&)` takes it. -/
def Exn.isStd : Exn → Bool
  | .std _ => true
  | .other => false

/-- `what()` of a standard exception. -/
abbrev StdException : Type := String

/-- A function object that returns or throws a standard exception, and may read and write the
    state. -/
abbrev Callback (σ α β : Type) : Type := α → σ → Except StdException β × σ

/-- Call it. -/
def Callback.call (f : Callback σ α β) (a : α) : Comp Exn σ β := fun s =>
  match f a s with
  | (.ok b, s')    => (.returned b, s')
  | (.error e, s') => (.threw (.std e), s')

theorem run_call_ok {f : Callback σ α β} {a : α} {b : β} {s s' : σ} (h : f a s = (.ok b, s')) :
    (f.call a).run s = (.returned b, s') := by
  simp only [Comp.run, Callback.call, h]

theorem run_call_error {f : Callback σ α β} {a : α} {e : StdException} {s s' : σ}
    (h : f a s = (.error e, s')) : (f.call a).run s = (.threw (.std e), s') := by
  simp only [Comp.run, Callback.call, h]

end Effect
