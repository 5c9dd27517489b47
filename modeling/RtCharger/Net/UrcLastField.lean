import RtCharger.Net.UrcArguments

namespace RtCharger.Net

open Effect RtCharger.Utilities

/-!
# The rest of a line and the last parameter

`getArgs` cuts the body once less than the callback has parameters, and emitters are counted
although they consume no field.  So the last field-consuming parameter gets all the text behind
the commas before it only if there is no emitter, or if that text has no comma (`lastField_iff`).

* `IsDealing` — the text cut at its first commas, the rest in one piece;
* `consumed` — the fields that the field-consuming parameters are dealt.
-/

/-- The text is cut at its first `k - 1` commas into `k` pieces. -/
def IsDealing (k : Nat) (text : Text) (pieces : List Text) : Prop :=
  pieces.length = k ∧ [','].intercalate pieces = text ∧ ∀ t ∈ pieces.dropLast, ',' ∉ t

/-- What the parameters that consume a field are dealt of the fields. -/
def consumed (params : List Param) (fields : List Text) : List (Option Text) :=
  ((dealt 0 params).filter fun d => d.1.consumes).map fun d => fields[d.2]?

/-- The number of parameters that consume a field. -/
def consumers (params : List Param) : Nat := params.countP Param.consumes

/-! ### Pieces and cuts -/

/-- One piece is the text itself. -/
theorem isDealing_one_iff {text : Text} {pieces : List Text} :
    IsDealing 1 text pieces ↔ pieces = [text] := by
  constructor
  · rintro ⟨hlen, htext, _⟩
    obtain ⟨t, rfl⟩ := List.length_eq_one_iff.mp hlen
    rw [← htext]
    simp [List.intercalate]
  · rintro rfl
    simp [IsDealing, List.intercalate]

/-- Another piece in front. -/
theorem isDealing_cons_iff {k : Nat} {text t : Text} {pieces : List Text} :
    IsDealing (k + 2) text (t :: pieces) ↔
      ',' ∉ t ∧ ∃ rest, text = t ++ ',' :: rest ∧ IsDealing (k + 1) rest pieces := by
  unfold IsDealing
  by_cases hne : pieces = []
  · subst hne
    simp
  · rw [List.intercalate_cons_of_ne_nil hne, List.dropLast_cons_of_ne_nil hne,
      List.forall_mem_cons]
    constructor
    · rintro ⟨hlen, rfl, ht, hpieces⟩
      exact ⟨ht, _, by simp, Nat.succ.inj hlen, rfl, hpieces⟩
    · rintro ⟨ht, rest, rfl, hlen, rfl, hpieces⟩
      exact ⟨congrArg Nat.succ hlen, by simp, ht, hpieces⟩

/-- A text with enough commas can be cut. -/
theorem exists_isDealing {k : Nat} {text : Text} (h : k ≤ text.count ',') :
    ∃ pieces, IsDealing (k + 1) text pieces := by
  induction k generalizing text with
  | zero => exact ⟨[text], isDealing_one_iff.mpr rfl⟩
  | succ k ih =>
    have hmem : ',' ∈ text := List.count_pos_iff.mp (by omega)
    obtain ⟨t, rest, rfl, ht⟩ := List.eq_append_cons_of_mem hmem
    rw [List.count_append, List.count_cons_self, List.count_eq_zero.mpr ht] at h
    have hrest : k ≤ rest.count ',' := by omega
    obtain ⟨pieces, hpieces⟩ := ih hrest
    exact ⟨t :: pieces, isDealing_cons_iff.mpr ⟨ht, rest, rfl, hpieces⟩⟩

/-- **Cutting more often** leaves all pieces but the last as they are. -/
theorem split_of_isDealing {k : Nat} {text : Text} {pieces : List Text}
    (h : IsDealing (k + 1) text pieces) (n : Nat) :
    ∃ front last, pieces = front ++ [last] ∧ front.length = k ∧
      text.count ',' = k + last.count ',' ∧
      split ',' (k + n : Nat) text = front ++ split ',' n last := by
  induction k generalizing text pieces with
  | zero =>
    rw [isDealing_one_iff] at h
    subst h
    exact ⟨[], text, rfl, rfl, by simp, by simp⟩
  | succ k ih =>
    cases pieces with
    | nil => cases h.1
    | cons t pieces =>
      obtain ⟨ht, rest, rfl, hrest⟩ := isDealing_cons_iff.mp h
      obtain ⟨front, last, rfl, hfront, hcount, hsplit⟩ := ih hrest
      refine ⟨t :: front, last, rfl, congrArg Nat.succ hfront, ?_, ?_⟩
      · rw [List.count_append, List.count_cons_self, List.count_eq_zero.mpr ht, hcount]
        omega
      · rw [Nat.add_right_comm, split_append ht, hsplit, List.cons_append]

/-- The first cut of a text is the text itself only if there is no comma to cut at. -/
theorem split_head_eq_iff {n : Nat} {text : Text} :
    (split ',' n text)[0]? = some text ↔ n = 0 ∨ ',' ∉ text := by
  cases n with
  | zero =>
    have hzero : split ',' (0 : Nat) text = [text] := split_zero text
    rw [hzero]
    simp
  | succ n =>
    by_cases hmem : ',' ∈ text
    · obtain ⟨t, rest, rfl, ht⟩ := List.eq_append_cons_of_mem hmem
      rw [split_append ht]
      simp
    · simp [split_of_not_mem hmem, hmem]

/-! ### What the parameters are dealt -/

/-- The field-consuming parameters are dealt consecutive positions. -/
theorem map_snd_filter_dealt (i : Nat) (params : List Param) :
    ((dealt i params).filter fun d => d.1.consumes).map Prod.snd
      = List.range' i (consumers params) := by
  induction params generalizing i with
  | nil => rfl
  | cons param params ih =>
    rw [dealt, consumers, List.countP_cons, List.filter_cons]
    by_cases hp : param.consumes
    · rw [if_pos hp, List.map_cons, if_pos hp, ih, if_pos hp, List.range'_succ, consumers]
    · rw [if_neg hp, if_neg hp, ih, if_neg hp, consumers, Nat.add_zero]

/-- The `j`-th of them is dealt the `j`-th field. -/
theorem consumed_eq (params : List Param) (fields : List Text) :
    consumed params fields = (List.range (consumers params)).map fun j => fields[j]? := by
  rw [consumed, List.range_eq_range', ← map_snd_filter_dealt, List.map_map]
  rfl

/-- As many parameters as there are emitters and field-consuming ones. -/
theorem consumers_le (params : List Param) : consumers params ≤ params.length :=
  List.countP_le_length

/-- All parameters consume a field if none is an emitter. -/
theorem consumers_eq_length_iff (params : List Param) :
    consumers params = params.length ↔ .emitter ∉ params := by
  rw [consumers, List.countP_eq_length]
  constructor
  · intro h hmem
    exact absurd (h .emitter hmem) (by decide)
  · intro h param hparam
    cases param with
    | emitter => exact absurd hparam h
    | _       => rfl

/-- The first fields, and the one behind them. -/
theorem map_getElem?_range_succ (front rest : List Text) :
    (List.range (front.length + 1)).map (fun j => (front ++ rest)[j]?)
      = front.map some ++ [rest[0]?] := by
  rw [List.range_succ, List.map_append, List.map_singleton,
    List.getElem?_append_right (Nat.le_refl _), Nat.sub_self]
  congr 1
  apply List.ext_getElem
  · simp
  · intro j h₁ _
    have hj : j < front.length := by simpa using h₁
    rw [List.getElem_map, List.getElem_map, List.getElem_range, List.getElem?_append_left hj,
      List.getElem?_eq_getElem hj]

/-! ### The last parameter -/

variable {A σ : Type} {uninitialised : Nat → Int} {probe : Probe σ A} {line : Text} {s : σ}

/-- The `j`-th field-consuming parameter is dealt the text between the commas around it, and the
    last one all the rest of the body. -/
def Probe.DealsRest (probe : Probe σ A) (line : Text) : Prop :=
  ∃ texts, IsDealing (consumers probe.params) (probe.body line) texts ∧
    consumed probe.params (probe.fields line) = texts.map some

/-- Evaluating from left to right makes every argument of the field dealt to its parameter. -/
theorem Probe.argsIn_left_to_right :
    (probe.argsIn (Equiv.refl _) uninitialised line s).1
      = (dealt 0 probe.params).mapM (probe.argAt uninitialised line s) := by
  rw [Probe.argsIn_eq, evaluated_refl]

/-- However the body is cut, the pieces but the last are those that `getArgs` cuts. -/
theorem Probe.consumed_fields_iff {k : Nat} {texts : List Text}
    (hk : consumers probe.params = k + 1) (htexts : IsDealing (k + 1) (probe.body line) texts) :
    consumed probe.params (probe.fields line) = texts.map some ↔
      .emitter ∉ probe.params ∨ (probe.body line).count ',' = k := by
  obtain ⟨e, he⟩ := Nat.exists_eq_add_of_le (consumers_le probe.params)
  have hlimit : (probe.params.length : Int) - 1 = (k + e : Nat) := by omega
  have hemitter : .emitter ∉ probe.params ↔ e = 0 := by
    rw [← consumers_eq_length_iff]
    omega
  obtain ⟨front, last, rfl, hfront, hcount, hsplit⟩ := split_of_isDealing htexts e
  rw [consumed_eq, Probe.fields, hlimit, hsplit, hk, ← hfront, map_getElem?_range_succ,
    List.map_append, List.map_singleton, List.append_cancel_left_eq, List.singleton_inj,
    split_head_eq_iff, hemitter, ← List.count_eq_zero, hcount]
  omega

/-- What it takes for the rest to reach the last parameter. -/
theorem Probe.dealsRest_iff (hk : 1 ≤ consumers probe.params)
    (hcommas : consumers probe.params - 1 ≤ (probe.body line).count ',') :
    probe.DealsRest line ↔
      .emitter ∉ probe.params ∨ (probe.body line).count ',' = consumers probe.params - 1 := by
  obtain ⟨k, hk⟩ := Nat.exists_eq_add_of_le' hk
  rw [hk, Nat.add_sub_cancel] at hcommas
  rw [Probe.DealsRest, hk, Nat.add_sub_cancel]
  constructor
  · rintro ⟨texts, htexts, hconsumed⟩
    exact (Probe.consumed_fields_iff hk htexts).mp hconsumed
  · intro h
    obtain ⟨texts, htexts⟩ := exists_isDealing hcommas
    exact ⟨texts, htexts, (Probe.consumed_fields_iff hk htexts).mpr h⟩

/-- **The rest of the line reaches the last parameter** exactly when the callback has no emitter
    or the rest has no comma. -/
theorem lastField_iff (probe : Probe σ A) (line : Text) (hk : 1 ≤ consumers probe.params)
    (hcommas : consumers probe.params - 1 ≤ (probe.body line).count ',') :
    (∀ uninitialised s, (probe.argsIn (Equiv.refl _) uninitialised line s).1
        = (dealt 0 probe.params).mapM (probe.argAt uninitialised line s)) ∧
      (probe.DealsRest line ↔
        .emitter ∉ probe.params ∨ (probe.body line).count ',' = consumers probe.params - 1) :=
  ⟨fun _ _ => Probe.argsIn_left_to_right, Probe.dealsRest_iff hk hcommas⟩

/-- The handler of `+HTTPRESPC:`, as far as its arguments; every slot has a live object. -/
def httprespc : Probe Unit Unit where
  urcPrefix := "+HTTPRESPC:".toList
  urcSuffix := "\r\n".toList
  params    := [.emitter, .slot, .int, .int, .int, .view]
  callback  := fun _ => pure Emitted.none
  slots     := some fun _ _ => .returned ()
  event     := none
  offset    := none
  opt       := kDefaultOpt

/-- Without a comma in the content, the callback is dealt all of it. -/
theorem lastField_iff_plain :
    (∀ uninitialised s,
        (httprespc.argsIn (Equiv.refl _) uninitialised "+HTTPRESPC:0,0,2,2,ab\r\n".toList s).1
          = (dealt 0 httprespc.params).mapM
              (httprespc.argAt uninitialised "+HTTPRESPC:0,0,2,2,ab\r\n".toList s)) ∧
      (httprespc.DealsRest "+HTTPRESPC:0,0,2,2,ab\r\n".toList ↔
        .emitter ∉ httprespc.params ∨
          (httprespc.body "+HTTPRESPC:0,0,2,2,ab\r\n".toList).count ','
            = consumers httprespc.params - 1) :=
  lastField_iff httprespc _ (by decide) (by decide)

/-- Content with a comma is cut there, because the emitter is counted. -/
theorem lastField_cut :
    ¬ httprespc.DealsRest "+HTTPRESPC:0,0,3,3,a,b\r\n".toList ∧
      (consumed httprespc.params (httprespc.fields "+HTTPRESPC:0,0,3,3,a,b\r\n".toList))[4]?
        = some (some ['a']) := by
  refine ⟨?_, by decide⟩
  rw [Probe.dealsRest_iff (by decide) (by decide)]
  decide

end RtCharger.Net
