import RtCharger.Net.UrcLastField
import Mathlib.Data.List.FinRange
import Mathlib.Data.Fintype.Perm

namespace RtCharger.Net

open Effect RtCharger.Utilities

/-!
# The order in which arguments are evaluated

All arguments of the call move one cursor, and the language does not say in which order they
are evaluated.  `cursor` is where it stands when the turn of a parameter comes, and the callback
gets what is made of the fields at these positions (`calls_iff_cursor`).  They are the fields of
the signature exactly for the orders that are `InOrder` (`evaluationOrder_iff`): a compiler that
evaluates from right to left swaps the fields of two numbers.
-/

variable {A σ : Type} {params : List Param} {order : Equiv.Perm (Fin params.length)}

/-- Where the cursor stands when the parameter `p` is evaluated: past the fields of the
    parameters that are evaluated before it. -/
def cursor (params : List Param) (order : Equiv.Perm (Fin params.length))
    (p : Fin params.length) : Nat :=
  (List.finRange params.length).countP fun q =>
    params[q].consumes && decide (order.symm q < order.symm p)

/-- The parameters that consume a field are evaluated in the order of the signature, and no
    emitter after the last of them. -/
def InOrder (params : List Param) (order : Equiv.Perm (Fin params.length)) : Prop :=
  (∀ p q : Fin params.length, params[p].consumes = true → params[q].consumes = true → p < q →
      order.symm p < order.symm q) ∧
    ∀ p : Fin params.length, params[p].consumes = false →
      ∃ q : Fin params.length, params[q].consumes = true ∧ order.symm p < order.symm q

instance : Decidable (InOrder params order) := inferInstanceAs (Decidable (_ ∧ _))

/-! ### The cursor -/

/-- The position dealt to the `j`-th parameter of a list. -/
theorem getElem?_dealt {ps : List Param} {j : Nat} {param : Param} (h : ps[j]? = some param)
    (i : Nat) : (dealt i ps)[j]? = some (param, i + (ps.take j).countP Param.consumes) := by
  induction ps generalizing i j with
  | nil => cases h
  | cons p ps ih =>
    cases j with
    | zero =>
      cases h
      rfl
    | succ j =>
      rw [dealt, List.getElem?_cons_succ, ih h, List.take_succ_cons, List.countP_cons]
      by_cases hp : p.consumes
      · simp only [hp, if_true]
        congr 2
        omega
      · simp [hp]

/-- Counting among the first of a range. -/
theorem countP_take_finRange {n : Nat} (P : Fin n → Bool) (j : Nat) :
    ((List.finRange n).take j).countP P
      = (List.finRange n).countP fun x => P x && decide (x.val < j) := by
  have hsplit : ((List.finRange n).take j ++ (List.finRange n).drop j).countP
        (fun x => P x && decide (x.val < j))
      = ((List.finRange n).take j).countP (fun x => P x && decide (x.val < j))
        + ((List.finRange n).drop j).countP (fun x => P x && decide (x.val < j)) :=
    List.countP_append
  have htake : ((List.finRange n).take j).countP (fun x => P x && decide (x.val < j))
      = ((List.finRange n).take j).countP P := by
    apply List.countP_congr
    intro x hx
    obtain ⟨i, hi, rfl⟩ := List.mem_take_iff_getElem.mp hx
    have hlt : i < j := by omega
    simp [hlt]
  have hdrop : ((List.finRange n).drop j).countP (fun x => P x && decide (x.val < j)) = 0 := by
    rw [List.countP_eq_zero]
    intro x hx
    obtain ⟨i, hi, rfl⟩ := List.mem_drop_iff_getElem.mp hx
    have hge : ¬ j + i < j := by omega
    simp [hge]
  rw [List.take_append_drop, htake, hdrop, Nat.add_zero] at hsplit
  exact hsplit.symm

theorem evaluated_eq_map :
    evaluated params order = ((List.finRange params.length).map order).map fun q => params[q] := by
  rw [evaluated, List.ofFn_eq_map, List.map_map]
  rfl

/-- **The position that an argument is read at** is where the cursor stands. -/
theorem getElem?_dealt_evaluated (p : Fin params.length) :
    (dealt 0 (evaluated params order))[(order.symm p).val]?
      = some (params[p], cursor params order p) := by
  have hparam : (evaluated params order)[(order.symm p).val]? = some params[p] := by
    rw [evaluated, List.getElem?_ofFn, dif_pos (order.symm p).isLt]
    simp
  -- the parameters before `p` in the evaluation, counted there and in the signature
  have hcursor : cursor params order p = (List.finRange params.length).countP fun x =>
      params[order x].consumes && decide (x < order.symm p) := by
    rw [cursor, ← (Equiv.Perm.map_finRange_perm order).countP_eq, List.countP_map]
    simp [Function.comp_def]
  have hcount : ((evaluated params order).take (order.symm p).val).countP Param.consumes
      = cursor params order p := by
    rw [hcursor, evaluated_eq_map, List.map_map, ← List.map_take, List.countP_map,
      countP_take_finRange]
    rfl
  rw [getElem?_dealt hparam, hcount, Nat.zero_add]

/-- Evaluating from left to right deals the fields as the signature says. -/
theorem getElem?_dealt_signature (p : Fin params.length) :
    (dealt 0 params)[p.val]? = some (params[p], cursor params (Equiv.refl _) p) := by
  have h : (dealt 0 (evaluated params (Equiv.refl _)))[p.val]?
      = some (params[p], cursor params (Equiv.refl _) p) := getElem?_dealt_evaluated p
  rwa [evaluated_refl] at h

/-! ### The arguments -/

section Arguments

variable {probe : Probe σ A} {uninitialised : Nat → Int} {line : Text} {s : σ}

theorem exists_eq_ofFn {n : Nat} {β : Type} {xs : List β} (h : xs.length = n) :
    ∃ f : Fin n → β, xs = List.ofFn f := by
  subst h
  exact ⟨xs.get, (List.ofFn_get xs).symm⟩

/-- As many results as places: each is put in its place. -/
theorem inPlace_ofFn {n : Nat} {β : Type} (order : Equiv.Perm (Fin n)) (f : Fin n → β) :
    inPlace order (List.ofFn f) = List.ofFn fun p => f (order.symm p) := by
  have hget : ∀ p : Fin n, (List.ofFn f)[(order.symm p).val]? = some (f (order.symm p)) := by
    intro p
    rw [List.getElem?_ofFn, dif_pos (order.symm p).isLt]
  simp only [inPlace, hget]
  rw [List.filterMap_eq_map', List.ofFn_eq_map]

/-- The arguments, when each is made of the field at the cursor. -/
theorem argsIn_eq_returned_iff {order : Equiv.Perm (Fin probe.params.length)}
    (results : Fin probe.params.length → Arg A) :
    (probe.argsIn order uninitialised line s).1 = .returned (List.ofFn results) ↔
      ∀ p : Fin probe.params.length,
        probe.argAt uninitialised line s (probe.params[p], cursor probe.params order p)
          = .returned (results (order.symm p)) := by
  have hlen : (dealt 0 (evaluated probe.params order)).length = probe.params.length := by
    rw [length_dealt, length_evaluated]
  have hdealt : ∀ p : Fin probe.params.length, ∀ hp,
      (dealt 0 (evaluated probe.params order)).get ⟨(order.symm p).val, hp⟩
        = (probe.params[p], cursor probe.params order p) := fun p hp =>
    (List.getElem?_eq_some_iff.mp (getElem?_dealt_evaluated p)).2
  rw [Probe.argsIn_eq, mapM_eq_returned_iff, List.forall₂_iff_get]
  constructor
  · rintro ⟨_, hall⟩ p
    have hp := hall (order.symm p).val (by rw [hlen]; exact (order.symm p).isLt) (by simp)
    rw [hdealt] at hp
    simpa using hp
  · intro hall
    refine ⟨by rw [hlen, List.length_ofFn], fun j h₁ h₂ => ?_⟩
    -- the `j`-th to be evaluated is the parameter `order j`
    have hj := hall (order ⟨j, by rwa [hlen] at h₁⟩)
    rw [← hdealt _ (Nat.lt_of_lt_of_eq (order.symm _).isLt hlen.symm)] at hj
    simpa using hj

/-- **The callback gets what is made of the fields at the cursor**, each argument in the place
    of its parameter. -/
theorem calls_iff_cursor {order : Equiv.Perm (Fin probe.params.length)} (h : probe.Carries line)
    (args : Fin probe.params.length → Arg A) :
    probe.Calls order uninitialised line s (List.ofFn args) ↔
      ∀ p : Fin probe.params.length,
        probe.argAt uninitialised line s (probe.params[p], cursor probe.params order p)
          = .returned (args p) := by
  rw [Probe.calls_iff h]
  constructor
  · rintro ⟨results, p, hargs, heq⟩
    have hlen : results.length = probe.params.length :=
      (length_of_run_all hargs).trans (length_evaluated _ _)
    obtain ⟨f, rfl⟩ := exists_eq_ofFn hlen
    rw [inPlace_ofFn, List.ofFn_inj] at heq
    rw [heq]
    exact (argsIn_eq_returned_iff f).mp (by rw [hargs])
  · intro hall
    have hresults : (probe.argsIn order uninitialised line s).1
        = .returned (List.ofFn fun j => args (order j)) :=
      (argsIn_eq_returned_iff _).mpr (by simpa using hall)
    refine ⟨_, (probe.argsIn order uninitialised line s).2, Prod.ext hresults rfl, ?_⟩
    rw [inPlace_ofFn]
    simp

end Arguments

/-! ### Which orders keep the fields in place -/

/-- A condition that misses an element which a weaker one takes. -/
theorem countP_lt_countP {β : Type} {xs : List β} {P Q : β → Bool}
    (h : ∀ x ∈ xs, P x = true → Q x = true) {y : β} (hy : y ∈ xs) (hQ : Q y = true)
    (hP : P y = false) : xs.countP P < xs.countP Q := by
  obtain ⟨front, back, rfl⟩ := List.append_of_mem hy
  have hfront := List.countP_mono_left (l := front) fun x hx => h x (List.mem_append_left _ hx)
  have hback := List.countP_mono_left (l := back) fun x hx =>
    h x (List.mem_append_right _ (List.mem_cons_of_mem _ hx))
  simp only [List.countP_append, List.countP_cons, hP, hQ, if_true, Bool.false_eq_true, if_false]
  omega

/-- The cursor does not go back. -/
theorem cursor_le {p q : Fin params.length} (h : order.symm p ≤ order.symm q) :
    cursor params order p ≤ cursor params order q := by
  apply List.countP_mono_left
  intro x _ hx
  simp only [Bool.and_eq_true, decide_eq_true_eq] at hx ⊢
  exact ⟨hx.1, lt_of_lt_of_le hx.2 h⟩

/-- It is past the field of a parameter once that one was evaluated. -/
theorem cursor_lt {p q : Fin params.length} (hp : params[p].consumes = true)
    (h : order.symm p < order.symm q) : cursor params order p < cursor params order q := by
  apply countP_lt_countP (y := p)
  · intro x _ hx
    simp only [Bool.and_eq_true, decide_eq_true_eq] at hx ⊢
    exact ⟨hx.1, lt_trans hx.2 h⟩
  · exact List.mem_finRange p
  · exact Bool.and_eq_true_iff.mpr ⟨hp, decide_eq_true h⟩
  · simp

/-- An order that keeps the field-consuming parameters in the order of the signature keeps
    their fields. -/
theorem cursor_eq_of_inOrder (h : InOrder params order) {p : Fin params.length}
    (hp : params[p].consumes = true) :
    cursor params order p = cursor params (Equiv.refl _) p := by
  apply List.countP_congr
  intro q _
  rw [Bool.and_eq_true, Bool.and_eq_true, decide_eq_true_iff, decide_eq_true_iff]
  refine and_congr_right fun hq => ⟨fun hlt => ?_, h.1 q p hq hp⟩
  rcases lt_trichotomy q p with hqp | rfl | hpq
  · exact hqp
  · exact absurd hlt (lt_irrefl _)
  · exact absurd (h.1 p q hp hq hpq) (lt_asymm hlt)

theorem consumers_eq (params : List Param) :
    consumers params = (List.finRange params.length).countP fun q => params[q].consumes := by
  have hget : params = (List.finRange params.length).map params.get := by
    rw [← List.ofFn_eq_map, List.ofFn_get]
  conv_lhs => rw [consumers, hget, List.countP_map]
  rfl

/-- The cursor is at a field of the signature as long as a field-consuming parameter is still to
    be evaluated. -/
theorem cursor_lt_consumers_iff {p : Fin params.length} :
    cursor params order p < consumers params ↔
      ∃ q : Fin params.length, params[q].consumes = true ∧ order.symm p ≤ order.symm q := by
  rw [consumers_eq]
  constructor
  · intro hlt
    by_contra hnone
    simp only [not_exists, not_and, not_le] at hnone
    refine absurd hlt (not_lt.mpr ?_)
    apply List.countP_mono_left
    intro q _ hq
    exact Bool.and_eq_true_iff.mpr ⟨hq, decide_eq_true (hnone q hq)⟩
  · rintro ⟨q, hq, hle⟩
    apply countP_lt_countP (y := q)
    · intro x _ hx
      exact (Bool.and_eq_true _ _ ▸ hx).1
    · exact List.mem_finRange q
    · exact hq
    · simp [not_lt.mpr hle]

/-- Every field of the signature is some parameter's. -/
theorem exists_cursor_eq {c : Nat} (h : c < consumers params) :
    ∃ p : Fin params.length, params[p].consumes = true ∧ cursor params (Equiv.refl _) p = c := by
  have hmem : c ∈ ((dealt 0 params).filter fun d => d.1.consumes).map Prod.snd := by
    rw [map_snd_filter_dealt, List.mem_range'_1]
    omega
  obtain ⟨d, hd, rfl⟩ := List.mem_map.mp hmem
  obtain ⟨hd, hconsumes⟩ := List.mem_filter.mp hd
  obtain ⟨j, hj, rfl⟩ := List.getElem_of_mem hd
  have hlt : j < params.length := by rwa [length_dealt] at hj
  obtain ⟨_, heq⟩ := List.getElem?_eq_some_iff.mp (getElem?_dealt_signature ⟨j, hlt⟩)
  simp only [heq] at hconsumes ⊢
  exact ⟨⟨j, hlt⟩, hconsumes, rfl⟩

/-! ### Well-formed lines -/

/-- The callback's parameters of a probe. -/
abbrev Probe.withParams (base : Probe σ A) (params : List Param) : Probe σ A :=
  { base with params := params }

/-- A line whose `i`-th field can be made into the argument of the `i`-th field-consuming
    parameter, whatever a variable holds that was not initialised; `args` are the arguments. -/
def Probe.WellFormed (probe : Probe σ A) (line : Text) (s : σ)
    (args : Fin probe.params.length → Arg A) : Prop :=
  ∀ p : Fin probe.params.length,
    (probe.params[p].consumes = true → ∀ uninitialised,
      probe.argAt uninitialised line s (probe.params[p], cursor probe.params (Equiv.refl _) p)
        = .returned (args p)) ∧
    (probe.params[p].consumes = false → args p = .emitter)

/-- An emitter can be made wherever another argument can. -/
theorem argumentAt_emitter {acquire : Acquire A} {opt : Options} {uninitialised : Nat → Int}
    {fields : List Text} {param : Param} {c : Nat} {arg : Arg A}
    (h : argumentAt acquire opt uninitialised fields (param, c) = .returned arg) :
    argumentAt acquire opt uninitialised fields (.emitter, c) = .returned .emitter := by
  unfold argumentAt argumentOf at h ⊢
  cases hfield : fields[c]? with
  | none =>
    rw [hfield] at h
    cases h
  | some field =>
    cases ha : preprocessArg field opt with
    | none =>
      simp only [hfield, ha] at h
      cases h
    | some a => simp only [ha]

theorem eq_emitter_of_consumes {param : Param} (h : param.consumes = false) : param = .emitter := by
  cases param with
  | emitter => rfl
  | _       => cases h

/-- **An order that is in order** hands the callback the arguments of the line. -/
theorem calls_of_inOrder {probe : Probe σ A} {order : Equiv.Perm (Fin probe.params.length)}
    {line : Text} {s : σ} {args : Fin probe.params.length → Arg A} (h : probe.Carries line)
    (hline : probe.WellFormed line s args) (horder : InOrder probe.params order)
    (uninitialised : Nat → Int) :
    probe.Calls order uninitialised line s (List.ofFn args) := by
  refine (calls_iff_cursor h args).mpr fun p => ?_
  cases hp : probe.params[p].consumes with
  | true =>
    rw [cursor_eq_of_inOrder horder hp]
    exact (hline p).1 hp uninitialised
  | false =>
    obtain ⟨q, hq, hlt⟩ := horder.2 p hp
    -- the emitter reads the field of a parameter that is still to come
    obtain ⟨r, hr, hcursor⟩ := exists_cursor_eq (cursor_lt_consumers_iff.mpr ⟨q, hq, le_of_lt hlt⟩)
    have hfield := (hline r).1 hr uninitialised
    rw [hcursor] at hfield
    rw [(hline p).2 hp, eq_emitter_of_consumes hp]
    exact argumentAt_emitter hfield

/-! ### Lines that tell the fields apart -/

/-- A field that is marked, and one that is not. -/
def mark (b : Bool) : Text := if b then ['1'] else ['0']

/-- A handler whose slots all have a live object, named by its number. -/
abbrev marker (params : List Param) : Probe Unit Int where
  urcPrefix := []
  urcSuffix := []
  params    := params
  callback  := fun _ => pure Emitted.none
  slots     := some fun _ slotId => .returned slotId
  event     := none
  offset    := none
  opt       := kDefaultOpt

/-- The line of `k` fields of which the field `m` is marked. -/
def markedLine (k m : Nat) : Text :=
  [','].intercalate ((List.range k).map fun i => mark (decide (i = m)))

/-- The argument that is made of a field. -/
def markedArg (b : Bool) : Param → Arg Int
  | .emitter => .emitter
  | .slot    => .slot (if b then 1 else 0)
  | .int     => .int (if b then 1 else 0)
  | .view    => .view (mark b)

theorem body_marker (params : List Param) (line : Text) : (marker params).body line = line := by
  simp [Probe.body]

theorem carries_marker (params : List Param) (line : Text) : (marker params).Carries line :=
  ⟨List.nil_prefix, List.nil_suffix⟩

theorem comma_not_mem_mark (b : Bool) : ',' ∉ mark b := by
  cases b <;> decide

theorem isDealing_markedLine (k m : Nat) :
    IsDealing k (markedLine k m) ((List.range k).map fun i => mark (decide (i = m))) := by
  refine ⟨by simp, rfl, fun t ht => ?_⟩
  obtain ⟨i, _, rfl⟩ := List.mem_map.mp (List.mem_of_mem_dropLast ht)
  exact comma_not_mem_mark _

/-- The fields of the line are those it was made of. -/
theorem fields_marker {params : List Param} (hk : 0 < consumers params) (m : Nat) :
    (marker params).fields (markedLine (consumers params) m)
      = (List.range (consumers params)).map fun i => mark (decide (i = m)) := by
  obtain ⟨k, hk⟩ := Nat.exists_eq_add_of_lt hk
  rw [Nat.zero_add] at hk
  obtain ⟨e, he⟩ := Nat.exists_eq_add_of_le (consumers_le params)
  have hlimit : ((marker params).params.length : Int) - 1 = (k + e : Nat) := by
    show (params.length : Int) - 1 = _
    omega
  rw [Probe.fields, hlimit, body_marker, hk]
  obtain ⟨front, last, hpieces, _, _, hsplit⟩ := split_of_isDealing (isDealing_markedLine (k + 1) m) e
  have hlast : ',' ∉ last := by
    have hmem : last ∈ (List.range (k + 1)).map fun i => mark (decide (i = m)) := by
      rw [hpieces]
      exact List.mem_append_right _ List.mem_cons_self
    obtain ⟨i, _, rfl⟩ := List.mem_map.mp hmem
    exact comma_not_mem_mark _
  rw [hsplit, split_of_not_mem hlast, hpieces]

/-- What is made of the field at `c`. -/
theorem argAt_marker {params : List Param} (hk : 0 < consumers params) (m c : Nat)
    (uninitialised : Nat → Int) (param : Param) :
    (marker params).argAt uninitialised (markedLine (consumers params) m) () (param, c)
      = if c < consumers params then .returned (markedArg (decide (c = m)) param)
        else .undefined := by
  rw [Probe.argAt, argumentAt, fields_marker hk]
  by_cases hc : c < consumers params
  · have hget : ((List.range (consumers params)).map fun i => mark (decide (i = m)))[c]?
        = some (mark (decide (c = m))) := by
      simp [hc]
    simp only [hget, if_pos hc]
    cases decide (c = m) <;> cases param <;> rfl
  · have hget : ((List.range (consumers params)).map fun i => mark (decide (i = m)))[c]? = none := by
      simp [Nat.not_lt.mp hc]
    simp only [hget, if_neg hc]

/-- A field-consuming parameter has a field of its own. -/
theorem cursor_lt_consumers {p : Fin params.length} (hp : params[p].consumes = true) :
    cursor params order p < consumers params :=
  cursor_lt_consumers_iff.mpr ⟨p, hp, le_refl _⟩

/-- The line is well-formed. -/
theorem wellFormed_marker {params : List Param} (hk : 0 < consumers params) (m : Nat) :
    (marker params).WellFormed (markedLine (consumers params) m) () fun p =>
      markedArg (decide (cursor params (Equiv.refl _) p = m)) params[p] := by
  refine fun p => ⟨fun hp uninitialised => ?_, fun hp => ?_⟩
  · rw [argAt_marker hk]
    exact if_pos (cursor_lt_consumers hp)
  · show markedArg _ params[p] = _
    rw [eq_emitter_of_consumes hp]
    rfl

/-- The mark shows in an argument that consumes its field. -/
theorem markedArg_injective {param : Param} (hp : param.consumes = true) {b : Bool}
    (h : markedArg b param = markedArg true param) : b = true := by
  cases b with
  | true  => rfl
  | false =>
    cases param with
    | emitter => cases hp
    | _       => simp [markedArg, mark] at h

/-- What the marked lines tell about an order. -/
theorem cursor_of_calls {order : Equiv.Perm (Fin params.length)} (hk : 0 < consumers params)
    (h : ∀ line args, (marker params).WellFormed line () args →
      (marker params).Calls order (fun _ => 0) line () (List.ofFn args)) (p : Fin params.length) :
    cursor params order p < consumers params ∧ (params[p].consumes = true →
      cursor params order p = cursor params (Equiv.refl _) p) := by
  -- the field of the parameter `p` is marked
  have hcalls := h _ _ (wellFormed_marker hk (cursor params (Equiv.refl _) p))
  have hp := (calls_iff_cursor (carries_marker _ _) _).mp hcalls p
  rw [argAt_marker hk] at hp
  have hlt : cursor params order p < consumers params := by
    by_contra hge
    rw [if_neg hge] at hp
    cases hp
  rw [if_pos hlt] at hp
  refine ⟨hlt, fun hconsumes => ?_⟩
  have hmark := markedArg_injective hconsumes (by simpa using hp)
  simpa using hmark

/-- Emitters alone read the only field of an empty line, which is blank. -/
theorem not_calls_blank {order : Equiv.Perm (Fin params.length)} (hk : consumers params = 0)
    (p : Fin params.length) :
    ¬ (marker params).Calls order (fun _ => 0) [] () (List.ofFn fun _ : Fin params.length => .emitter) := by
  intro hcalls
  have hp := (calls_iff_cursor (carries_marker _ _) _).mp hcalls p
  have hcursor : cursor params order p = 0 := by
    have hle : cursor params order p ≤ consumers params := by
      rw [consumers_eq]
      apply List.countP_mono_left
      intro q _ hq
      exact (Bool.and_eq_true _ _ ▸ hq).1
    omega
  have hfields : (marker params).fields [] = [[]] := by
    rw [Probe.fields, body_marker]
    exact split_of_not_mem List.not_mem_nil
  have hund : ∀ param : Param, (marker params).argAt (fun _ => 0) [] () (param, 0) = .undefined := by
    intro param
    rw [Probe.argAt, argumentAt, hfields]
    rfl
  rw [hcursor, hund] at hp
  cases hp

/-- **Only the orders that are in order** hand the callback the arguments of every line. -/
theorem inOrder_of_calls {order : Equiv.Perm (Fin params.length)}
    (h : ∀ line args, (marker params).WellFormed line () args →
      (marker params).Calls order (fun _ => 0) line () (List.ofFn args)) : InOrder params order := by
  rcases Nat.eq_zero_or_pos (consumers params) with hk | hk
  · have hnone : ∀ q : Fin params.length, params[q].consumes = false := by
      intro q
      by_contra hq
      have hlt : cursor params order q < consumers params :=
        cursor_lt_consumers (Bool.eq_true_of_not_eq_false hq)
      omega
    have hcalls := h [] (fun _ => .emitter) fun q =>
      ⟨fun hq => absurd hq (by rw [hnone q]; decide), fun _ => rfl⟩
    refine ⟨fun q _ hq => absurd hq (by rw [hnone q]; decide), fun q _ => ?_⟩
    exact absurd hcalls (not_calls_blank hk q)
  · have hcursor := cursor_of_calls hk h
    constructor
    · intro p q hp hq hlt
      by_contra hge
      have hle := cursor_le (not_lt.mp hge)
      rw [(hcursor p).2 hp, (hcursor q).2 hq] at hle
      exact absurd (cursor_lt hp hlt) (not_lt.mpr hle)
    · intro p hp
      obtain ⟨q, hq, hle⟩ := cursor_lt_consumers_iff.mp (hcursor p).1
      refine ⟨q, hq, lt_of_le_of_ne hle fun heq => ?_⟩
      rw [order.symm.injective heq, hq] at hp
      cases hp

/-! ### Every signature, every line -/

/-- **The arguments depend on the order of evaluation.**  For every signature and every order:
    on a well-formed line the callback gets the arguments of the line exactly when every
    parameter is evaluated with the cursor at a field that makes the same argument; and it gets
    them on all well-formed lines exactly when the order takes the field-consuming parameters
    as the signature does, and no emitter after the last of them. -/
theorem evaluationOrder_iff (params : List Param) (order : Equiv.Perm (Fin params.length)) :
    (∀ (σ A : Type) (base : Probe σ A) (uninitialised : Nat → Int) (line : Text) (s : σ)
        (args : Fin params.length → Arg A), (base.withParams params).Carries line →
      (base.withParams params).WellFormed line s args →
        ((base.withParams params).Calls order uninitialised line s (List.ofFn args) ↔
          ∀ p : Fin params.length, (base.withParams params).argAt uninitialised line s
            (params[p], cursor params order p) = .returned (args p))) ∧
      ((∀ (σ A : Type) (base : Probe σ A) (uninitialised : Nat → Int) (line : Text) (s : σ)
          (args : Fin params.length → Arg A), (base.withParams params).Carries line →
        (base.withParams params).WellFormed line s args →
          (base.withParams params).Calls order uninitialised line s (List.ofFn args)) ↔
        InOrder params order) := by
  refine ⟨fun σ A base uninitialised line s args h _ => calls_iff_cursor h args, ?_, ?_⟩
  · intro h
    exact inOrder_of_calls fun line args hline =>
      h Unit Int (marker params) (fun _ => 0) line () args (carries_marker params line) hline
  · intro horder σ A base uninitialised line s args h hline
    exact calls_of_inOrder h hline horder uninitialised

/-- From left to right, two numbers are in order. -/
theorem evaluationOrder_iff_left_to_right :
    (∀ (σ A : Type) (base : Probe σ A) (uninitialised : Nat → Int) (line : Text) (s : σ)
        (args : Fin 2 → Arg A), (base.withParams [.int, .int]).Carries line →
      (base.withParams [.int, .int]).WellFormed line s args →
        (base.withParams [.int, .int]).Calls (Equiv.refl _) uninitialised line s
          (List.ofFn args)) ↔
      InOrder [.int, .int] (Equiv.refl _) :=
  (evaluationOrder_iff [.int, .int] (Equiv.refl _)).2

/-- From right to left, the numbers of `1,2` are swapped. -/
theorem evaluationOrder_swapped :
    (marker [.int, .int]).Carries ['1', ',', '2'] ∧
      (marker [.int, .int]).WellFormed ['1', ',', '2'] () (fun p => .int (p.val + 1)) ∧
      ¬ (marker [.int, .int]).Calls (Equiv.swap 0 1) (fun _ => 0) ['1', ',', '2'] ()
        (List.ofFn fun p : Fin 2 => .int (p.val + 1)) ∧
      (marker [.int, .int]).Calls (Equiv.swap 0 1) (fun _ => 0) ['1', ',', '2'] ()
        (List.ofFn fun p : Fin 2 => .int (2 - p.val)) := by
  have hcarries := carries_marker [.int, .int] ['1', ',', '2']
  refine ⟨hcarries, ?_, ?_, ?_⟩
  · exact Fin.forall_fin_two.mpr ⟨⟨fun _ _ => rfl, fun h => by cases h⟩,
      ⟨fun _ _ => rfl, fun h => by cases h⟩⟩
  · intro h
    exact absurd ((calls_iff_cursor hcarries _).mp h 0) (by decide)
  · exact (calls_iff_cursor hcarries _).mpr (Fin.forall_fin_two.mpr ⟨by decide, by decide⟩)

end RtCharger.Net
