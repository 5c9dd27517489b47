import RtCharger.Net.UrcArguments

namespace RtCharger.Net

open Effect RtCharger.Utilities

/-!
# Lines with too few fields

The number of fields comes from the line and the number of reads from the signature, and
nothing compares them.  A handler reads past the end of the fields, or does something else that
is not defined, unless every argument that it comes to has a field it can use
(`shortLine_iff`): only a slot parameter that throws stops it earlier.

* `Readable`, `Refuses` — what a field has to be like for its argument to be made of it, and
  when a slot parameter throws;
* `EnoughFields` — the condition on a line.
-/

variable {A σ : Type} {acquire : Acquire A} {opt : Options} {uninitialised : Int} {param : Param}
  {field : Text}

/-! ### Fields -/

/-- Nothing but leading spaces, and the first character is looked at all the same. -/
def Blank (opt : Options) (field : Text) : Prop :=
  opt.unwrapQuota = true ∧ (if opt.removeLeadingPad = true then unpadded field else field) = []

instance (opt : Options) (field : Text) : Decidable (Blank opt field) :=
  inferInstanceAs (Decidable (_ ∧ _))

/-- Only a blank field cannot be preprocessed. -/
theorem preprocessArg_eq_none_iff : preprocessArg field opt = none ↔ Blank opt field := by
  obtain ⟨unwrap, pad⟩ := opt
  cases unwrap
  · simp [preprocessArg, Blank]
  · simp only [preprocessArg, Blank, drop_pad, if_true, true_and]
    cases h : if pad = true then unpadded field else field with
    | nil => simp
    | cons c cs =>
      simp only [List.getElem?_cons_zero, reduceCtorEq, iff_false]
      split_ifs <;> simp

/-- The number that a slot parameter looks up, and how the lookup ends; nothing is looked up in
    a handler without slots. -/
def SlotLookup (acquire : Acquire A) (opt : Options) (uninitialised : Int) (field : Text)
    (P : Outcome Exn A → Prop) : Prop :=
  ∀ find a, acquire = some find → preprocessArg field opt = some a →
    P (find (parseInt a uninitialised))

/-- An argument can be made of the field, or a slot parameter throws: the field is not blank,
    and the number of a slot is one that the slots have. -/
def Readable (acquire : Acquire A) (opt : Options) (uninitialised : Int) (param : Param)
    (field : Text) : Prop :=
  ¬ Blank opt field ∧ (param = .slot →
    SlotLookup acquire opt uninitialised field Outcome.Defined)

/-- A slot parameter throws: the slots are not set, or no object lives in the slot. -/
def Refuses (acquire : Acquire A) (opt : Options) (uninitialised : Int) (param : Param)
    (field : Text) : Prop :=
  param = .slot ∧ ¬ Blank opt field ∧
    SlotLookup acquire opt uninitialised field fun o => ∃ e, o = .threw e

theorem argumentOf_threw_iff :
    (∃ e, argumentOf acquire opt uninitialised param field = .threw e) ↔
      Refuses acquire opt uninitialised param field := by
  simp only [Refuses, SlotLookup, ← preprocessArg_eq_none_iff, argumentOf]
  cases ha : preprocessArg field opt with
  | none => simp
  | some a =>
    cases param with
    | slot =>
      cases acquire with
      | none => simp
      | some find => cases hfind : find (parseInt a uninitialised) <;> simp [Outcome.bind, hfind]
    | _ => simp

theorem argumentOf_defined_iff :
    (argumentOf acquire opt uninitialised param field).Defined ↔
      Readable acquire opt uninitialised param field := by
  simp only [Readable, SlotLookup, ← preprocessArg_eq_none_iff, argumentOf, Outcome.Defined]
  cases ha : preprocessArg field opt with
  | none => simp
  | some a =>
    cases param with
    | slot =>
      cases acquire with
      | none => simp
      | some find => cases hfind : find (parseInt a uninitialised) <;> simp [Outcome.bind, hfind]
    | _ => simp

/-! ### Lines -/

section Lines

variable {uninitialised : Nat → Int} {probe : Probe σ A}
  {order : Equiv.Perm (Fin probe.params.length)} {line : Text} {s : σ}

/-- The slot parameter `d` throws on the field dealt to it. -/
def Probe.RefusesAt (probe : Probe σ A) (uninitialised : Nat → Int) (line : Text) (s : σ)
    (d : Param × Nat) : Prop :=
  ∃ field, (probe.fields line)[d.2]? = some field ∧
    Refuses (probe.slots.map fun slots => slots s) probe.opt (uninitialised d.2) d.1 field

/-- Every argument that the handler comes to, because no slot parameter before it throws, has a
    field, and one that it can use.  A parameter has one if the body has as many commas as there
    are parameters before it that consume a field. -/
def Probe.EnoughFields (probe : Probe σ A) (order : Equiv.Perm (Fin probe.params.length))
    (uninitialised : Nat → Int) (line : Text) (s : σ) : Prop :=
  ∀ pre param k post, dealt 0 (evaluated probe.params order) = pre ++ (param, k) :: post →
    (∀ d ∈ pre, ¬ probe.RefusesAt uninitialised line s d) →
      k ≤ (probe.body line).count ',' ∧ ∀ field, (probe.fields line)[k]? = some field →
        Readable (probe.slots.map fun slots => slots s) probe.opt (uninitialised k) param field

/-- The positions of the fields that the handler reads. -/
def Probe.reads (probe : Probe σ A) (order : Equiv.Perm (Fin probe.params.length))
    (uninitialised : Nat → Int) (line : Text) (s : σ) : List Nat :=
  ArgProvider.reads (probe.slots.map fun slots => slots s) probe.opt uninitialised
    (evaluated probe.params order) ⟨probe.fields line, 0, none⟩

/-- A parameter has a field exactly when the body has enough commas. -/
theorem Probe.getElem?_fields_isSome_iff {d : Param × Nat}
    (hd : d ∈ dealt 0 (evaluated probe.params order)) :
    (∃ field, (probe.fields line)[d.2]? = some field) ↔ d.2 ≤ (probe.body line).count ',' := by
  have hlt := dealt_lt_length hd
  rw [length_evaluated, Nat.zero_add] at hlt
  rw [← Probe.lt_length_fields_iff hlt]
  constructor
  · rintro ⟨field, hfield⟩
    exact (List.getElem?_eq_some_iff.mp hfield).1
  · intro hlen
    exact ⟨_, List.getElem?_eq_getElem hlen⟩

theorem Probe.refusesAt_iff {d : Param × Nat} :
    probe.RefusesAt uninitialised line s d ↔
      ∃ e, probe.argAt uninitialised line s d = .threw e := by
  unfold Probe.RefusesAt Probe.argAt argumentAt
  cases hfield : (probe.fields line)[d.2]? with
  | none => simp
  | some field => simp [← argumentOf_threw_iff]

/-- Making an argument is defined when it has a field that it can use. -/
theorem Probe.argAt_defined_iff {d : Param × Nat}
    (hd : d ∈ dealt 0 (evaluated probe.params order)) :
    (probe.argAt uninitialised line s d).Defined ↔
      d.2 ≤ (probe.body line).count ',' ∧ ∀ field, (probe.fields line)[d.2]? = some field →
        Readable (probe.slots.map fun slots => slots s) probe.opt (uninitialised d.2) d.1 field := by
  rw [← Probe.getElem?_fields_isSome_iff hd]
  unfold Probe.argAt argumentAt
  cases hfield : (probe.fields line)[d.2]? with
  | none => simp [Outcome.Defined]
  | some field => simp [← argumentOf_defined_iff]

/-- **Enough fields** are what it takes for the arguments to be defined. -/
theorem Probe.enoughFields_iff :
    probe.EnoughFields order uninitialised line s ↔
      (probe.argsIn order uninitialised line s).1.Defined := by
  have hmem : ∀ pre d post, dealt 0 (evaluated probe.params order) = pre ++ d :: post →
      d ∈ dealt 0 (evaluated probe.params order) := by
    intro pre d post heq
    rw [heq]
    exact List.mem_append_right pre List.mem_cons_self
  rw [Probe.argsIn_eq, mapM_defined_iff]
  constructor
  · intro h pre d post heq hpre
    refine (Probe.argAt_defined_iff (hmem pre d post heq)).mpr ?_
    exact h pre d.1 d.2 post heq fun d' hd' hrefuses => hpre d' hd' (Probe.refusesAt_iff.mp hrefuses)
  · intro h pre param k post heq hpre
    refine (Probe.argAt_defined_iff (hmem pre (param, k) post heq)).mp ?_
    exact h pre (param, k) post heq fun d' hd' hthrew => hpre d' hd' (Probe.refusesAt_iff.mpr hthrew)

/-- The arguments are read from fields that are there, and the callback is called with them, or
    an error is reported and it is not called. -/
def Probe.CallsOrRejects (probe : Probe σ A) (order : Equiv.Perm (Fin probe.params.length))
    (uninitialised : Nat → Int) (line : Text) (s : σ) : Prop :=
  (∀ k ∈ probe.reads order uninitialised line s, k < (probe.fields line).length) ∧
    ((∃ args, probe.Calls order uninitialised line s (inPlace order args) ∧
        List.Forall₂ (fun d arg => d.2 < (probe.fields line).length ∧
            probe.argAt uninitialised line s d = .returned arg)
          (dealt 0 (evaluated probe.params order)) args) ∨
      ∃ e, probe.Rejects order uninitialised line s e)

/-- **A short line is read past unless it has enough fields.**  Whatever the signature, the
    order of evaluation and the line, the handler keeps to the fields of the line, and calls the
    callback or reports an error, exactly when every argument it comes to has a field that it
    can use. -/
theorem shortLine_iff (probe : Probe σ A) (order : Equiv.Perm (Fin probe.params.length))
    (uninitialised : Nat → Int) (line : Text) (s : σ) (h : probe.Carries line) :
    probe.CallsOrRejects order uninitialised line s ↔
      probe.EnoughFields order uninitialised line s := by
  rw [Probe.enoughFields_iff]
  constructor
  · rintro ⟨_, ⟨args, hcalls, _⟩ | ⟨e, hrejects⟩⟩
    · obtain ⟨results, p, hargs, _⟩ := (Probe.calls_iff h).mp hcalls
      simp [hargs, Outcome.Defined]
    · simp [(Probe.rejects_iff h).mp hrejects, Outcome.Defined]
  · intro hdefined
    refine ⟨reads_lt_of_defined hdefined.1, ?_⟩
    cases hargs : probe.argsIn order uninitialised line s with
    | mk o p =>
      rw [hargs] at hdefined
      cases o with
      | returned results =>
        refine Or.inl ⟨results, (Probe.calls_iff h).mpr ⟨results, p, hargs, rfl⟩, ?_⟩
        have hall := probe.argsIn_eq order uninitialised line s
        rw [hargs] at hall
        refine (mapM_eq_returned_iff.mp hall.symm).imp fun d arg harg => ⟨?_, harg⟩
        by_contra hge
        rw [Probe.argAt, argumentAt, List.getElem?_eq_none (Nat.not_lt.mp hge)] at harg
        cases harg
      | threw e    => exact Or.inr ⟨e, (Probe.rejects_iff h).mpr (by rw [hargs])⟩
      | terminated => exact absurd rfl hdefined.2
      | undefined  => exact absurd rfl hdefined.1

end Lines

/-! ### A line of one field -/

/-- The handler of `+ECMTCONN:`, whose callback takes a slot and two numbers; every slot has a
    live object. -/
def ecmtconn : Probe Unit Unit where
  urcPrefix := "+ECMTCONN:".toList
  urcSuffix := "\r\n".toList
  params    := [.slot, .int, .int]
  callback  := fun _ => pure Emitted.none
  slots     := some fun _ _ => .returned ()
  event     := none
  offset    := none
  opt       := kDefaultOpt

/-- A line with three fields has enough of them, and the handler calls or rejects. -/
theorem shortLine_iff_three_fields :
    (ecmtconn.CallsOrRejects (Equiv.refl _) (fun _ => 0) "+ECMTCONN:0,0,0\r\n".toList () ↔
      ecmtconn.EnoughFields (Equiv.refl _) (fun _ => 0) "+ECMTCONN:0,0,0\r\n".toList ()) :=
  shortLine_iff ecmtconn _ _ _ () (by decide)

/-- A line with one field is read past. -/
theorem shortLine_read_past :
    ecmtconn.Carries "+ECMTCONN:0\r\n".toList ∧
      ¬ ecmtconn.CallsOrRejects (Equiv.refl _) (fun _ => 0) "+ECMTCONN:0\r\n".toList () :=
  ⟨by decide, fun h => absurd (h.1 1 (by decide)) (by decide)⟩

end RtCharger.Net
