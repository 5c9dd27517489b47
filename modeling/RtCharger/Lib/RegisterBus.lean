import RtCharger.Lib.Effect

namespace RegisterBus

open Effect

/-!
# Registers behind a bus

A driver reads and writes the registers of a device.  The state is the log of its accesses, and
the device is a function that answers a read, given everything that has happened before: any
sequence of answers is the one of some device, a broken one included.

* `read`, `write`, `modify` — one access, and a read-modify-write;
* `poll` — reads of one register until its value is right or a number of reads is used up;
* `run_poll` — which of the answers ends the polling;
* `Does` — a computation returns after a bounded number of accesses, all of one kind;
* `writes`, `lastWrite`, `reads` — what was written to a register, and what was read from it.
-/

variable {ε R V α β ι : Type}

/-- One access. -/
inductive Access (R V : Type) where
  | read (r : R) (v : V)
  | write (r : R) (v : V)
deriving DecidableEq, Repr

/-- All accesses, in order. -/
abbrev Log (R V : Type) : Type := List (Access R V)

/-- What a read of a register returns after the accesses. -/
abbrev Bus (R V : Type) : Type := Log R V → R → V

/-! ### Accesses -/

/-- Read a register. -/
def read (bus : Bus R V) (r : R) : Comp ε (Log R V) V :=
  fun l => (.returned (bus l r), l ++ [.read r (bus l r)])

/-- Write a register. -/
def write (r : R) (v : V) : Comp ε (Log R V) Unit := fun l => (.returned (), l ++ [.write r v])

/-- Read a register and write what `f` makes of the value. -/
def modify (bus : Bus R V) (r : R) (f : V → V) : Comp ε (Log R V) Unit := do
  let v ← read bus r
  write r (f v)

/-- Read a register `n` times. -/
def readN (bus : Bus R V) (r : R) : Nat → Comp ε (Log R V) (List V)
  | 0     => pure []
  | n + 1 => do
    let v ← read bus r
    let vs ← readN bus r n
    pure (v :: vs)

/-- `do { v = read(r); count--; } while(count != 0 && !done(v));` with `count` one above `left`:
    the last value, and what is left of the count. -/
def poll (bus : Bus R V) (r : R) (done : V → Bool) : (left : Nat) → Comp ε (Log R V) (V × Nat)
  | 0        => do
    let v ← read bus r
    pure (v, 0)
  | left + 1 => do
    let v ← read bus r
    if done v then pure (v, left + 1) else poll bus r done left

@[simp] theorem run_read (bus : Bus R V) (r : R) (l : Log R V) :
    (read bus r : Comp ε (Log R V) V).run l = (.returned (bus l r), l ++ [.read r (bus l r)]) :=
  rfl

@[simp] theorem run_write (r : R) (v : V) (l : Log R V) :
    (write r v : Comp ε (Log R V) Unit).run l = (.returned (), l ++ [.write r v]) := rfl

@[simp] theorem run_modify (bus : Bus R V) (r : R) (f : V → V) (l : Log R V) :
    (modify bus r f : Comp ε (Log R V) Unit).run l
      = (.returned (), l ++ [.read r (bus l r), .write r (f (bus l r))]) := by
  rw [modify, run_bind_returned (run_read bus r l), run_write, List.append_assoc]
  rfl

/-- The value that a read-modify-write reads. -/
theorem exists_run_modify (bus : Bus R V) (r : R) (f : V → V) (l : Log R V) :
    ∃ v, (modify bus r f : Comp ε (Log R V) Unit).run l
      = (.returned (), l ++ [.read r v, .write r (f v)]) := ⟨_, run_modify bus r f l⟩

/-! ### Polling -/

/-- The log after `k` reads of the register. -/
def readsLog (bus : Bus R V) (r : R) (l : Log R V) : Nat → Log R V
  | 0     => l
  | k + 1 => readsLog bus r l k ++ [.read r (bus (readsLog bus r l k) r)]

/-- The answer to the read of the register after `k` others. -/
def answer (bus : Bus R V) (r : R) (l : Log R V) (k : Nat) : V := bus (readsLog bus r l k) r

theorem readsLog_succ (bus : Bus R V) (r : R) (l : Log R V) (k : Nat) :
    readsLog bus r (l ++ [.read r (bus l r)]) k = readsLog bus r l (k + 1) := by
  induction k with
  | zero => rfl
  | succ k ih => rw [readsLog, ih, ← readsLog]

/-- The log grows by the answers. -/
theorem readsLog_eq (bus : Bus R V) (r : R) (l : Log R V) (k : Nat) :
    readsLog bus r l k = l ++ (List.range k).map fun j => .read r (answer bus r l j) := by
  induction k with
  | zero => simp [readsLog]
  | succ k ih =>
    rw [List.range_succ, List.map_append, ← List.append_assoc, ← ih]
    rfl

/-- **Polling** ends with the first answer that is right, or with the last one that is allowed. -/
theorem run_poll (bus : Bus R V) (r : R) (done : V → Bool) (left : Nat) (l : Log R V) :
    ∃ k ≤ left, (∀ j < k, done (answer bus r l j) = false) ∧
      (done (answer bus r l k) = true ∨ k = left) ∧
      (poll bus r done left : Comp ε (Log R V) (V × Nat)).run l
        = (.returned (answer bus r l k, left - k), readsLog bus r l (k + 1)) := by
  induction left generalizing l with
  | zero =>
    refine ⟨0, Nat.le_refl _, ?_, .inr rfl, rfl⟩
    intro j hj
    exact absurd hj (Nat.not_lt_zero _)
  | succ left ih =>
    by_cases hdone : done (bus l r) = true
    · refine ⟨0, Nat.zero_le _, ?_, .inl hdone, ?_⟩
      · intro j hj
        exact absurd hj (Nat.not_lt_zero _)
      · rw [poll, run_bind_returned (run_read bus r l), if_pos hdone]
        rfl
    · obtain ⟨k, hk, hbefore, hend, hrun⟩ := ih (l ++ [.read r (bus l r)])
      have hanswer : ∀ j, answer bus r (l ++ [.read r (bus l r)]) j = answer bus r l (j + 1) := by
        intro j
        rw [answer, readsLog_succ]
        rfl
      simp only [hanswer] at hbefore hend hrun
      refine ⟨k + 1, Nat.succ_le_succ hk, ?_, hend.imp id (congrArg (· + 1)), ?_⟩
      · intro j hj
        cases j with
        | zero => exact Bool.eq_false_iff.mpr hdone
        | succ j => exact hbefore j (Nat.lt_of_succ_lt_succ hj)
      · rw [poll, run_bind_returned (run_read bus r l), if_neg hdone, hrun, readsLog_succ,
          Nat.succ_sub_succ]

/-! ### Bounded computations -/

/-- The computation returns after at most `n` accesses, all of which satisfy `ok`. -/
def Does (ok : Access R V → Prop) (n : Nat) (c : Comp ε (Log R V) α) : Prop :=
  ∀ l, ∃ a new, c.run l = (.returned a, l ++ new) ∧ new.length ≤ n ∧ ∀ x ∈ new, ok x

variable {ok : Access R V → Prop} {n m : Nat} {c : Comp ε (Log R V) α}

theorem does_pure (a : α) : Does ok 0 (pure a : Comp ε (Log R V) α) := by
  intro l
  exact ⟨a, [], by simp, Nat.le_refl _, fun x hx => nomatch hx⟩

theorem does_read {bus : Bus R V} {r : R} (h : ∀ v, ok (.read r v)) :
    Does ok 1 (read bus r : Comp ε (Log R V) V) := by
  intro l
  refine ⟨_, _, run_read bus r l, Nat.le_refl _, ?_⟩
  intro x hx
  rw [List.mem_singleton.mp hx]
  exact h _

theorem does_write {r : R} {v : V} (h : ok (.write r v)) :
    Does ok 1 (write r v : Comp ε (Log R V) Unit) := by
  intro l
  refine ⟨_, _, run_write r v l, Nat.le_refl _, ?_⟩
  intro x hx
  rw [List.mem_singleton.mp hx]
  exact h

/-- A bound may be raised. -/
theorem Does.mono (h : Does ok n c) (hle : n ≤ m) : Does ok m c := by
  intro l
  obtain ⟨a, new, hrun, hlen, hok⟩ := h l
  exact ⟨a, new, hrun, Nat.le_trans hlen hle, hok⟩

/-- **Sequencing** adds the bounds. -/
theorem Does.bind {f : α → Comp ε (Log R V) β} (h : Does ok n c) (hf : ∀ a, Does ok m (f a)) :
    Does ok (n + m) (c >>= f) := by
  intro l
  obtain ⟨a, new, hrun, hlen, hok⟩ := h l
  obtain ⟨b, new', hrun', hlen', hok'⟩ := hf a (l ++ new)
  refine ⟨b, new ++ new', ?_, ?_, ?_⟩
  · rw [run_bind_returned hrun, hrun', List.append_assoc]
  · rw [List.length_append]
    exact Nat.add_le_add hlen hlen'
  · intro x hx
    exact (List.mem_append.mp hx).elim (hok x) (hok' x)

theorem Does.ite {p : Prop} [Decidable p] {c' : Comp ε (Log R V) α} (h : p → Does ok n c)
    (h' : ¬ p → Does ok n c') : Does ok n (if p then c else c') := by
  split_ifs with hp
  · exact h hp
  · exact h' hp

theorem does_modify {bus : Bus R V} {r : R} {f : V → V} (h : ∀ v, ok (.read r v))
    (h' : ∀ v, ok (.write r v)) : Does ok 2 (modify bus r f : Comp ε (Log R V) Unit) :=
  (does_read h).bind fun _ => does_write (h' _)

theorem does_readN {bus : Bus R V} {r : R} (h : ∀ v, ok (.read r v)) (n : Nat) :
    Does ok n (readN bus r n : Comp ε (Log R V) (List V)) := by
  induction n with
  | zero => exact does_pure []
  | succ n ih =>
    have hrest : ∀ v, Does ok (n + 0) (readN bus r n >>= fun vs => pure (v :: vs) :
        Comp ε (Log R V) (List V)) := fun v => ih.bind fun vs => does_pure _
    exact ((does_read h).bind hrest).mono (by omega)

theorem does_poll {bus : Bus R V} {r : R} {done : V → Bool} (h : ∀ v, ok (.read r v))
    (left : Nat) : Does ok (left + 1) (poll bus r done left : Comp ε (Log R V) (V × Nat)) := by
  intro l
  obtain ⟨k, hk, -, -, hrun⟩ := run_poll (ε := ε) bus r done left l
  rw [readsLog_eq] at hrun
  refine ⟨_, _, hrun, ?_, ?_⟩
  · rw [List.length_map, List.length_range]
    exact Nat.succ_le_succ hk
  · intro x hx
    obtain ⟨j, -, rfl⟩ := List.mem_map.mp hx
    exact h _

/-- A loop over a list. -/
theorem does_forEach {body : ι → Comp ε (Log R V) Unit} (h : ∀ x, Does ok n (body x))
    (xs : List ι) : Does ok (xs.length * n) (forEach xs body) := by
  induction xs with
  | nil =>
    rw [List.length_nil, Nat.zero_mul]
    exact does_pure ()
  | cons x xs ih =>
    rw [List.length_cons, Nat.succ_mul, Nat.add_comm]
    exact (h x).bind fun _ => ih

/-- **A scope** adds what its destructor does. -/
theorem Does.inScope {dtor : Comp ε (Log R V) Unit} (h : Does ok n c) (hdtor : Does ok m dtor) :
    Does ok (n + m) (inScope dtor c) := by
  intro l
  obtain ⟨a, new, hrun, hlen, hok⟩ := h l
  obtain ⟨⟨⟩, new', hrun', hlen', hok'⟩ := hdtor (l ++ new)
  refine ⟨a, new ++ new', ?_, ?_, ?_⟩
  · rw [run_inScope_returned hrun hrun', List.append_assoc]
  · rw [List.length_append]
    exact Nat.add_le_add hlen hlen'
  · intro x hx
    exact (List.mem_append.mp hx).elim (hok x) (hok' x)

/-! ### What was written -/

section Logs

variable [DecidableEq R]

/-- The value that an access writes to the register. -/
def Access.writtenTo (r : R) : Access R V → Option V
  | .read _ _   => none
  | .write r' v => if r' = r then some v else none

/-- What was written to the register, in order. -/
def writes (r : R) (l : Log R V) : List V := l.filterMap (Access.writtenTo r)

/-- What was written to the register last. -/
def lastWrite (r : R) (l : Log R V) : Option V := (writes r l).getLast?

theorem writes_append (r : R) (l new : Log R V) :
    writes r (l ++ new) = writes r l ++ writes r new := List.filterMap_append

/-- Accesses that do not write to the register. -/
theorem writes_eq_nil {r : R} {new : Log R V} (h : ∀ x ∈ new, x.writtenTo r = none) :
    writes r new = [] := List.filterMap_eq_nil_iff.mpr h

theorem lastWrite_append_of_none {r : R} {new : Log R V} (h : ∀ x ∈ new, x.writtenTo r = none)
    (l : Log R V) : lastWrite r (l ++ new) = lastWrite r l := by
  rw [lastWrite, writes_append, writes_eq_nil h, List.append_nil, lastWrite]

theorem lastWrite_append_of_some {r : R} {v : V} {new : Log R V} (h : lastWrite r new = some v)
    (l : Log R V) : lastWrite r (l ++ new) = some v := by
  rw [lastWrite, writes_append, List.getLast?_append, ← lastWrite, h, Option.some_or]

theorem lastWrite_snoc_write (r : R) (v : V) (l : Log R V) :
    lastWrite r (l ++ [.write r v]) = some v := by
  apply lastWrite_append_of_some
  simp [lastWrite, writes, Access.writtenTo]

/-! ### What was read -/

/-- The value that an access reads from the register. -/
def Access.readFrom (r : R) : Access R V → Option V
  | .read r' v => if r' = r then some v else none
  | .write _ _ => none

/-- What was read from the register, in order. -/
def reads (r : R) (l : Log R V) : List V := l.filterMap (Access.readFrom r)

theorem reads_append (r : R) (l new : Log R V) :
    reads r (l ++ new) = reads r l ++ reads r new := List.filterMap_append

/-- Accesses that do not read from the register. -/
theorem reads_append_of_none {r : R} {new : Log R V} (h : ∀ x ∈ new, x.readFrom r = none)
    (l : Log R V) : reads r (l ++ new) = reads r l := by
  have hnil : reads r new = [] := List.filterMap_eq_nil_iff.mpr h
  rw [reads_append, hnil, List.append_nil]

/-- The register was read as often as it was polled. -/
theorem reads_readsLog (bus : Bus R V) (r : R) (l : Log R V) (k : Nat) :
    reads r (readsLog bus r l k) = reads r l ++ (List.range k).map (answer bus r l) := by
  rw [readsLog_eq, reads_append]
  congr 1
  rw [reads, List.filterMap_map]
  have hread : ∀ j, ((Access.readFrom r) ∘ fun j => Access.read r (answer bus r l j)) j
      = some (answer bus r l j) := fun j => if_pos rfl
  rw [funext hread, List.filterMap_eq_map']

end Logs

end RegisterBus
