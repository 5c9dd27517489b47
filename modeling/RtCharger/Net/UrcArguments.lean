import RtCharger.Net.AtUrcBuilder

namespace RtCharger.Net

open Effect RtCharger.Utilities

/-!
# Which field an argument is made of

The cursor of `ArgProvider` moves past a field when a parameter consumes it, so that the field
an argument is read from is known from the parameters alone: `dealt` names it.  Evaluating the
arguments is then nothing but making each of them from its field, in order, until one throws
(`run_all`), and the positions that are read are those dealt to the arguments evaluated so far
(`reads`).

The language leaves open in which order the arguments of the call are evaluated: `invokeIn`
and `handleIn` evaluate them in any order.
-/

variable {A σ : Type} {acquire : Acquire A} {opt : Options} {uninitialised : Nat → Int}

/-! ### One argument from its field -/

/-- The second part of what `ArgMapper::operator()<X>` returns: an emitter consumes no field. -/
def Param.consumes : Param → Bool
  | .emitter => false
  | _        => true

/-- What `ArgMapper::operator()<X>` makes of a field, with a variable that `parse` leaves as it
    is if it fails. -/
def argumentOf (acquire : Acquire A) (opt : Options) (uninitialised : Int) (param : Param)
    (field : Text) : Outcome Exn (Arg A) :=
  match preprocessArg field opt with
  | none   => .undefined
  | some a =>
    match param with
    | .emitter => .returned .emitter
    | .slot    =>
      match acquire with
      | none         => .threw (.std "slots not set")
      | some acquire => (acquire (parseInt a uninitialised)).bind fun obj => .returned (.slot obj)
    | .int     => .returned (.int (parseInt a uninitialised))
    | .view    => .returned (.view a)

/-- The argument that is read at position `i` of the fields. -/
def argumentAt (acquire : Acquire A) (opt : Options) (uninitialised : Nat → Int)
    (fields : List Text) (d : Param × Nat) : Outcome Exn (Arg A) :=
  match fields[d.2]? with
  | none       => .undefined
  | some field => argumentOf acquire opt (uninitialised d.2) d.1 field

/-- The position that each of the parameters reads, when the cursor stands at `i` before the
    first of them. -/
def dealt : Nat → List Param → List (Param × Nat)
  | _, []              => []
  | i, param :: params => (param, i) :: dealt (if param.consumes then i + 1 else i) params

theorem argumentAt_of_field {p : ArgProvider} {param : Param} {field : Text}
    (hfield : p.argStrs[p.i]? = some field) :
    argumentAt acquire opt uninitialised p.argStrs (param, p.i)
      = argumentOf acquire opt (uninitialised p.i) param field := by
  simp only [argumentAt, hfield]

/-- The same for a slot, which the handler looks up before it moves the cursor. -/
theorem run_next_slot_eq {p : ArgProvider} {field a : Text}
    (hfield : p.argStrs[p.i]? = some field) (ha : preprocessArg field opt = some a) :
    ∃ p', (ArgProvider.next acquire opt uninitialised .slot).run p
        = (argumentOf acquire opt (uninitialised p.i) .slot field, p') ∧
      ((∃ arg, argumentOf acquire opt (uninitialised p.i) .slot field = .returned arg) →
        p'.argStrs = p.argStrs ∧ p'.i = p.i + 1) := by
  show ∃ p', (ArgProvider.next acquire opt uninitialised .slot) p = _ ∧ _
  cases acquire with
  | none =>
    simp [ArgProvider.next, argumentOf, bind, Comp.bind, getState, ofOption, pure, raise,
      modifyState, hfield, ha]
  | some find =>
    cases hfind : find (parseInt a (uninitialised p.i)) <;>
      simp [ArgProvider.next, argumentOf, bind, Comp.bind, Outcome.bind, getState, ofOption,
        ofOutcome, pure, modifyState, hfield, ha, hfind]

/-- What evaluating one argument returns, and where it leaves the cursor. -/
theorem run_next (acquire : Acquire A) (opt : Options) (uninitialised : Nat → Int) (param : Param)
    (p : ArgProvider) :
    ∃ p', (ArgProvider.next acquire opt uninitialised param).run p
        = (argumentAt acquire opt uninitialised p.argStrs (param, p.i), p') ∧
      ((∃ arg, argumentAt acquire opt uninitialised p.argStrs (param, p.i) = .returned arg) →
        p'.argStrs = p.argStrs ∧ p'.i = if param.consumes then p.i + 1 else p.i) := by
  cases hfield : p.argStrs[p.i]? with
  | none =>
    refine ⟨p, ?_, fun _ => ?_⟩
    · show (ArgProvider.next acquire opt uninitialised param) p = _
      simp [ArgProvider.next, argumentAt, bind, Comp.bind, getState, ofOption,
        undefinedBehaviour, hfield]
    · simp_all [argumentAt]
  | some field =>
    rw [argumentAt_of_field hfield]
    cases ha : preprocessArg field opt with
    | none =>
      refine ⟨p, ?_, ?_⟩
      · show (ArgProvider.next acquire opt uninitialised param) p = _
        simp [ArgProvider.next, argumentOf, bind, Comp.bind, getState, ofOption, pure,
          undefinedBehaviour, hfield, ha]
      · simp [argumentOf, ha]
    | some a =>
      cases param with
      | emitter =>
        refine ⟨p, ?_, fun _ => ⟨rfl, rfl⟩⟩
        rw [run_next_emitter hfield ha]
        simp only [argumentOf, ha]
      | int =>
        refine ⟨{ p with i := p.i + 1 }, ?_, fun _ => ⟨rfl, rfl⟩⟩
        rw [run_next_int hfield ha rfl]
        simp only [argumentOf, ha]
      | view =>
        refine ⟨{ p with i := p.i + 1 }, ?_, fun _ => ⟨rfl, rfl⟩⟩
        rw [run_next_view hfield ha]
        simp only [argumentOf, ha]
      | slot => exact run_next_slot_eq hfield ha

/-! ### All arguments -/

/-- **The arguments are made of the fields dealt to them**, one after the other until one of
    them does not return. -/
theorem run_all (acquire : Acquire A) (opt : Options) (uninitialised : Nat → Int)
    (params : List Param) (p : ArgProvider) :
    ((ArgProvider.all acquire opt uninitialised params).run p).1
      = (dealt p.i params).mapM (argumentAt acquire opt uninitialised p.argStrs) := by
  induction params generalizing p with
  | nil => rfl
  | cons param params ih =>
    obtain ⟨p', hnext, hp'⟩ := run_next acquire opt uninitialised param p
    rw [ArgProvider.all, dealt, List.mapM_cons, run_bind, hnext]
    cases hat : argumentAt acquire opt uninitialised p.argStrs (param, p.i) with
    | returned arg =>
      obtain ⟨hstrs, hi⟩ := hp' ⟨arg, hat⟩
      have hrest := ih p'
      rw [hstrs, hi] at hrest
      show ((ArgProvider.all acquire opt uninitialised params >>= fun args =>
          pure (arg :: args)).run p').1
        = ((dealt _ params).mapM (argumentAt acquire opt uninitialised p.argStrs)).bind _
      rw [← hrest, run_bind]
      cases (ArgProvider.all acquire opt uninitialised params).run p' with
      | mk o p'' => cases o <;> rfl
    | _ => rfl

/-- Every parameter is dealt a field. -/
theorem map_fst_dealt (i : Nat) (params : List Param) : (dealt i params).map Prod.fst = params := by
  induction params generalizing i with
  | nil => rfl
  | cons param params ih => rw [dealt, List.map_cons, ih]

theorem length_dealt (i : Nat) (params : List Param) : (dealt i params).length = params.length := by
  conv_rhs => rw [← map_fst_dealt i params, List.length_map]

/-- No position beyond the number of parameters is dealt. -/
theorem dealt_lt_length {params : List Param} {i : Nat} {d : Param × Nat}
    (hd : d ∈ dealt i params) : d.2 < i + params.length := by
  induction params generalizing i with
  | nil => exact absurd hd List.not_mem_nil
  | cons param params ih =>
    rw [dealt, List.mem_cons] at hd
    rw [List.length_cons]
    rcases hd with rfl | hd
    · show i < _
      omega
    · have hlt := ih hd
      split_ifs at hlt <;> omega

/-- The positions of `argStrs` that the evaluation of the arguments reads: one for each argument
    up to the first that does not return. -/
def ArgProvider.reads (acquire : Acquire A) (opt : Options) (uninitialised : Nat → Int) :
    List Param → ArgProvider → List Nat
  | [], _              => []
  | param :: params, p =>
    p.i :: match (ArgProvider.next acquire opt uninitialised param).run p with
      | (.returned _, p') => ArgProvider.reads acquire opt uninitialised params p'
      | _                 => []

/-- Evaluation that ends in a defined way reads only positions that the fields have. -/
theorem reads_lt_of_defined {params : List Param} {p : ArgProvider}
    (h : ((ArgProvider.all acquire opt uninitialised params).run p).1 ≠ .undefined) :
    ∀ k ∈ ArgProvider.reads acquire opt uninitialised params p, k < p.argStrs.length := by
  induction params generalizing p with
  | nil => exact fun k hk => absurd hk List.not_mem_nil
  | cons param params ih =>
    obtain ⟨p', hnext, hp'⟩ := run_next acquire opt uninitialised param p
    rw [run_all, dealt, List.mapM_cons] at h
    have hi : p.i < p.argStrs.length := by
      by_contra hge
      have hnone : p.argStrs[p.i]? = none := List.getElem?_eq_none (Nat.not_lt.mp hge)
      exact h (by simp [argumentAt, hnone, bind, Outcome.bind])
    rw [ArgProvider.reads, hnext]
    refine List.forall_mem_cons.mpr ⟨hi, ?_⟩
    cases hat : argumentAt acquire opt uninitialised p.argStrs (param, p.i) with
    | returned arg =>
      obtain ⟨hstrs, hcursor⟩ := hp' ⟨arg, hat⟩
      rw [← hstrs]
      refine ih fun hund => h ?_
      rw [run_all, hstrs, hcursor] at hund
      rw [hat]
      show Outcome.bind (List.mapM _ (dealt _ params)) _ = _
      rw [hund]
      rfl
    | _ => exact fun k hk => absurd hk List.not_mem_nil

/-! ### Any order of evaluation -/

/-- The parameters in the order in which their arguments are evaluated: the `j`-th argument to
    be evaluated is that of the parameter `order j`. -/
def evaluated (params : List Param) (order : Equiv.Perm (Fin params.length)) : List Param :=
  List.ofFn fun j => params[order j]

/-- The results of the evaluation, each in the place of its parameter. -/
def inPlace {n : Nat} (order : Equiv.Perm (Fin n)) {β : Type} (results : List β) : List β :=
  (List.finRange n).filterMap fun i => results[(order.symm i).val]?

/-- `runProbe` without the `try` block of `run`, with the arguments of the call evaluated in
    some order. -/
def Probe.invokeIn (probe : Probe σ A) (order : Equiv.Perm (Fin probe.params.length))
    (uninitialised : Nat → Int) (data : Text) : Comp Exn σ Unit := do
  let s ← getState
  let argStrs ← getArgs probe.urcPrefix probe.urcSuffix data probe.params.length
  let acquire := probe.slots.map fun slots => slots s
  let r ← withLocal ⟨argStrs, 0, none⟩
    (ArgProvider.all acquire probe.opt uninitialised (evaluated probe.params order))
  let emitted ← probe.callback (inPlace order r.1)
  probe.thenSet r.2.slotId emitted

/-- The handler with the arguments evaluated in some order. -/
def Probe.handleIn (probe : Probe σ A) (order : Equiv.Perm (Fin probe.params.length))
    (uninitialised : Nat → Int) (data : Text) : Comp Exn σ Unit :=
  tryCatch (fun _ => true) (probe.invokeIn order uninitialised data) fun _ => pure ()

theorem evaluated_refl (params : List Param) : evaluated params (Equiv.refl _) = params := by
  simp [evaluated]

theorem length_evaluated (params : List Param) (order : Equiv.Perm (Fin params.length)) :
    (evaluated params order).length = params.length :=
  List.length_ofFn

/-- Results that are evaluated from left to right are in place. -/
theorem inPlace_refl {n : Nat} {β : Type} {results : List β} (h : results.length = n) :
    inPlace (Equiv.refl (Fin n)) results = results := by
  subst h
  have hget : ∀ i : Fin results.length, results[i.val]? = some (results.get i) := fun i =>
    List.getElem?_eq_getElem i.isLt
  simp only [inPlace, Equiv.refl_symm, Equiv.refl_apply, hget]
  rw [List.filterMap_eq_map', ← List.ofFn_eq_map, List.ofFn_get]

/-- As many arguments as parameters. -/
theorem length_of_run_all {params : List Param} {p p' : ArgProvider} {args : List (Arg A)}
    (h : (ArgProvider.all acquire opt uninitialised params).run p = (.returned args, p')) :
    args.length = params.length := by
  have hargs := run_all acquire opt uninitialised params p
  rw [h] at hargs
  rw [← (mapM_eq_returned_iff.mp hargs.symm).length_eq, length_dealt]

/-- **The handler of the model is the one that evaluates from left to right.** -/
theorem handleIn_refl (probe : Probe σ A) (uninitialised : Nat → Int) (data : Text) :
    probe.handleIn (Equiv.refl _) uninitialised data = probe.handle uninitialised data := by
  have hinvoke : probe.invokeIn (Equiv.refl _) uninitialised data
      = probe.invoke uninitialised data := by
    funext s
    show (probe.invokeIn (Equiv.refl _) uninitialised data).run s
      = (probe.invoke uninitialised data).run s
    rw [Probe.invokeIn, Probe.invoke, run_bind_returned (run_getState s),
      run_bind_returned (run_getState s), evaluated_refl]
    rw [run_bind, run_bind]
    cases (getArgs probe.urcPrefix probe.urcSuffix data probe.params.length).run s with
    | mk o s' =>
      cases o with
      | returned argStrs =>
        cases hall : (ArgProvider.all (probe.slots.map fun slots => slots s) probe.opt
            uninitialised probe.params).run ⟨argStrs, 0, none⟩ with
        | mk r p =>
          cases r with
          | returned args =>
            show Comp.run (withLocal _ _ >>= _) s' = Comp.run (withLocal _ _ >>= _) s'
            rw [run_bind_returned (run_withLocal_returned hall s'),
              run_bind_returned (run_withLocal_returned hall s'),
              inPlace_refl (length_of_run_all hall)]
          | _ =>
            -- nothing returned, nothing to put in its place
            show (withLocal _ _ >>= _) s' = (withLocal _ _ >>= _) s'
            rw [Comp.run] at hall
            simp only [bind, Comp.bind, withLocal, hall]
      | _ => rfl
  rw [Probe.handleIn, Probe.handle, hinvoke]

/-! ### Lines -/

/-- The line carries the prefix and the suffix that were registered; they may overlap. -/
def Probe.Carries (probe : Probe σ A) (line : Text) : Prop :=
  probe.urcPrefix <+: line ∧ probe.urcSuffix <:+ line

instance (probe : Probe σ A) (line : Text) : Decidable (probe.Carries line) :=
  inferInstanceAs (Decidable (_ ∧ _))

/-- The body of a line: what `getArgs` cuts at commas. -/
def Probe.body (probe : Probe σ A) (line : Text) : Text :=
  (line.drop probe.urcPrefix.length).take <|
    if probe.urcPrefix.length + probe.urcSuffix.length ≤ line.length then
      line.length - probe.urcPrefix.length - probe.urcSuffix.length
    else line.length

/-- The fields of a line. -/
def Probe.fields (probe : Probe σ A) (line : Text) : List Text :=
  split ',' ((probe.params.length : Int) - 1) (probe.body line)

/-- A line that carries the prefix is cut into its fields. -/
theorem run_getArgs_fields {probe : Probe σ A} {line : Text} (h : probe.Carries line) (s : σ) :
    (getArgs probe.urcPrefix probe.urcSuffix line probe.params.length).run s
      = (.returned (probe.fields line), s) := by
  have hle : probe.urcPrefix.length ≤ line.length := h.1.length_le
  simp only [getArgs, substr, if_pos hle, run_pure, Probe.fields, Probe.body]

/-- There are as many fields as commas, and one more, but not more than parameters. -/
theorem Probe.lt_length_fields_iff {probe : Probe σ A} {line : Text} {k : Nat}
    (hk : k < probe.params.length) :
    k < (probe.fields line).length ↔ k ≤ (probe.body line).count ',' := by
  have hcnt : (probe.params.length : Int) - 1 = (probe.params.length - 1 : Nat) := by omega
  rw [Probe.fields, hcnt, length_split]
  omega

/-! ### What a handler does with a line -/

/-- The arguments of a line, evaluated in some order. -/
def Probe.argsIn (probe : Probe σ A) (order : Equiv.Perm (Fin probe.params.length))
    (uninitialised : Nat → Int) (line : Text) (s : σ) : Outcome Exn (List (Arg A)) × ArgProvider :=
  (ArgProvider.all (probe.slots.map fun slots => slots s) probe.opt uninitialised
    (evaluated probe.params order)).run ⟨probe.fields line, 0, none⟩

/-- The handler calls the callback, whichever it is, with the arguments `args`. -/
def Probe.Calls (probe : Probe σ A) (order : Equiv.Perm (Fin probe.params.length))
    (uninitialised : Nat → Int) (line : Text) (s : σ) (args : List (Arg A)) : Prop :=
  ∃ slotId, ∀ callback : List (Arg A) → Comp Exn σ Emitted,
    ({ probe with callback := callback }.handleIn order uninitialised line).run s
      = (tryCatch (fun _ => true)
          (callback args >>= fun emitted => probe.thenSet slotId emitted)
          fun _ => pure ()).run s

/-- The handler catches an error, and whatever the callback is, it is not called. -/
def Probe.Rejects (probe : Probe σ A) (order : Equiv.Perm (Fin probe.params.length))
    (uninitialised : Nat → Int) (line : Text) (s : σ) (e : Exn) : Prop :=
  ∀ callback : List (Arg A) → Comp Exn σ Emitted,
    ({ probe with callback := callback }.invokeIn order uninitialised line).run s = (.threw e, s) ∧
      ({ probe with callback := callback }.handleIn order uninitialised line).run s
        = (.returned (), s)

/-- The argument that is made of the field dealt to the parameter `d`. -/
def Probe.argAt (probe : Probe σ A) (uninitialised : Nat → Int) (line : Text) (s : σ)
    (d : Param × Nat) : Outcome Exn (Arg A) :=
  argumentAt (probe.slots.map fun slots => slots s) probe.opt uninitialised (probe.fields line) d

section Handler

variable {probe : Probe σ A} {order : Equiv.Perm (Fin probe.params.length)} {line : Text} {s : σ}

/-- The arguments of a line are made of the fields dealt to the parameters. -/
theorem Probe.argsIn_eq (probe : Probe σ A) (order : Equiv.Perm (Fin probe.params.length))
    (uninitialised : Nat → Int) (line : Text) (s : σ) :
    (probe.argsIn order uninitialised line s).1
      = (dealt 0 (evaluated probe.params order)).mapM
          (probe.argAt uninitialised line s) :=
  run_all _ _ _ _ _

/-- The handler, as far as the arguments. -/
theorem run_invokeIn (h : probe.Carries line) (order : Equiv.Perm (Fin probe.params.length))
    (uninitialised : Nat → Int) (s : σ) (callback : List (Arg A) → Comp Exn σ Emitted) :
    ({ probe with callback := callback }.invokeIn order uninitialised line).run s
      = match probe.argsIn order uninitialised line s with
        | (.returned args, p) =>
          (callback (inPlace order args) >>= fun emitted => probe.thenSet p.slotId emitted).run s
        | (.threw e, _)       => (.threw e, s)
        | (.terminated, _)    => (.terminated, s)
        | (.undefined, _)     => (.undefined, s) := by
  rw [Probe.invokeIn, run_bind_returned (run_getState s), run_bind_returned (run_getArgs_fields h s)]
  cases hall : probe.argsIn order uninitialised line s with
  | mk o p =>
    rw [Probe.argsIn] at hall
    cases o with
    | returned args => exact run_bind_returned (run_withLocal_returned hall s) _
    | _ =>
      show (withLocal _ _ >>= _) s = _
      rw [Comp.run] at hall
      simp only [bind, Comp.bind, withLocal, hall]

/-- **The callback is called** exactly when all arguments are there. -/
theorem Probe.calls_iff (h : probe.Carries line) {args : List (Arg A)} :
    probe.Calls order uninitialised line s args ↔
      ∃ results p, probe.argsIn order uninitialised line s = (.returned results, p) ∧
        args = inPlace order results := by
  constructor
  · rintro ⟨slotId, hcalls⟩
    cases hargs : probe.argsIn order uninitialised line s with
    | mk o p =>
      have hrun := fun callback => run_invokeIn h order uninitialised s callback
      simp only [hargs] at hrun
      cases o with
      | returned results =>
        refine ⟨results, p, rfl, ?_⟩
        by_contra hne
        -- a callback that is defined for the arguments `args` only
        classical
        have heq := hcalls fun a => if a = args then raise .other else undefinedBehaviour
        rw [Probe.handleIn, run_tryCatch_congr (hrun _)] at heq
        simp only [if_neg (Ne.symm hne), if_true] at heq
        cases heq
      | threw e =>
        have heq := hcalls fun _ => undefinedBehaviour
        rw [Probe.handleIn, run_tryCatch_threw (hrun _) rfl] at heq
        cases heq
      | terminated =>
        have heq := hcalls fun _ => raise .other
        rw [Probe.handleIn, run_tryCatch_terminated (hrun _)] at heq
        cases heq
      | undefined =>
        have heq := hcalls fun _ => raise .other
        rw [Probe.handleIn, run_tryCatch_undefined (hrun _)] at heq
        cases heq
  · rintro ⟨results, p, hargs, rfl⟩
    refine ⟨p.slotId, fun callback => run_tryCatch_congr ?_ _⟩
    rw [run_invokeIn h order uninitialised s callback, hargs]

/-- **An error is reported** exactly when an argument throws. -/
theorem Probe.rejects_iff (h : probe.Carries line) {e : Exn} :
    probe.Rejects order uninitialised line s e ↔
      (probe.argsIn order uninitialised line s).1 = .threw e := by
  constructor
  · intro hrejects
    have hrun := (hrejects fun _ => undefinedBehaviour).1
    rw [run_invokeIn h] at hrun
    cases hargs : probe.argsIn order uninitialised line s with
    | mk o p =>
      rw [hargs] at hrun
      cases o <;> cases hrun
      rfl
  · intro hargs callback
    have hrun := run_invokeIn h order uninitialised s callback
    rw [← Prod.mk.eta (p := probe.argsIn order uninitialised line s), hargs] at hrun
    exact ⟨hrun, run_tryCatch_threw hrun rfl _⟩

end Handler

end RtCharger.Net
