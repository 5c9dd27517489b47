import RtCharger.Utilities.Text

namespace RtCharger.Utilities

/-!
# `parse` of the integral types

`parse<T>` of `string.hxx` for an integral type of any width, signed or not: `from_chars` reads
the decimal numeral at the beginning of the text, and leaves the variable as it is, which is
not initialised, when there is none or its number does not fit.

* `BeginsWith` — the text begins with a numeral;
* `beginsWith_iff` — it is the one that `from_chars` finds;
* `fromChars_int` — for an `int` this is `fromChars`.
-/

/-- An integral type: its width and whether it is signed. -/
structure IntegralType where
  bits : Nat
  isSigned : Bool
deriving DecidableEq, Repr

namespace IntegralType

/-- `int`. -/
def int : IntegralType := ⟨32, true⟩

/-- `std::numeric_limits<T>::min()`. -/
def min (ty : IntegralType) : Int := if ty.isSigned then -2 ^ (ty.bits - 1) else 0

/-- `std::numeric_limits<T>::max()`. -/
def max (ty : IntegralType) : Int :=
  if ty.isSigned then 2 ^ (ty.bits - 1) - 1 else 2 ^ ty.bits - 1

/-- The number is representable in the type. -/
def InRange (ty : IntegralType) (n : Int) : Prop := ty.min ≤ n ∧ n ≤ ty.max

instance (ty : IntegralType) (n : Int) : Decidable (ty.InRange n) :=
  inferInstanceAs (Decidable (_ ∧ _))

/-- The sign that `from_chars` looks for. -/
def signed (ty : IntegralType) (sv : Text) : Bool × Text :=
  if ty.isSigned then signOf sv else (false, sv)

/-- The number that the text begins with; a minus sign counts only for a signed type. -/
def leading (ty : IntegralType) (sv : Text) : Option Int :=
  let signed := ty.signed sv
  let ds := signed.2.takeWhile Char.isDigit
  if ds = [] then none
  else some (if signed.1 then -(decimal ds : Int) else decimal ds)

/-- `std::from_chars`; `none` when it fails, and leaves the variable as it is. -/
def fromChars (ty : IntegralType) (sv : Text) : Option Int :=
  (ty.leading sv).filter fun n => decide (ty.InRange n)

/-- `parse<T>`. -/
def parse (ty : IntegralType) (sv : Text) (uninitialised : Int) : Int :=
  (ty.fromChars sv).getD uninitialised

/-- For an `int` it is what `parse<int>` uses. -/
theorem fromChars_int (sv : Text) : int.fromChars sv = Utilities.fromChars sv := by
  have hmin : int.min = intMin := by decide
  have hmax : int.max = intMax := by decide
  have hsigned : int.signed sv = signOf sv := rfl
  simp only [fromChars, leading, InRange, Utilities.fromChars, hmin, hmax, hsigned]
  by_cases hds : (signOf sv).2.takeWhile Char.isDigit = []
  · rw [if_pos hds, if_pos hds]
    rfl
  · rw [if_neg hds, if_neg hds]
    simp [Option.filter]

theorem parse_int (sv : Text) (uninitialised : Int) :
    int.parse sv uninitialised = parseInt sv uninitialised := by
  rw [parse, parseInt, fromChars_int]

/-- The text begins with the numeral of `n`, as long a one as there is. -/
def BeginsWith (ty : IntegralType) (sv : Text) (n : Int) : Prop :=
  ∃ t rest, sv = t ++ rest ∧ IsNumeral t n ∧ (ty.isSigned = false → '-' ∉ t) ∧
    ∀ c, rest.head? = some c → c.isDigit = false

/-- Digits and what follows them. -/
theorem takeWhile_digits {ds rest : Text} (hds : IsDigits ds)
    (hrest : ∀ c, rest.head? = some c → c.isDigit = false) :
    (ds ++ rest).takeWhile Char.isDigit = ds := by
  have hstop : rest.takeWhile Char.isDigit = [] := by
    cases rest with
    | nil => rfl
    | cons c cs => simp [hrest c rfl]
  rw [List.takeWhile_append_of_pos hds.2, hstop, List.append_nil]

/-- A minus sign of a signed type, or none. -/
theorem signed_cases (ty : IntegralType) (sv : Text) :
    (∃ cs, sv = '-' :: cs ∧ ty.isSigned = true ∧ ty.signed sv = (true, cs)) ∨
      ty.signed sv = (false, sv) := by
  unfold signed
  by_cases hs : ty.isSigned = true
  · rw [if_pos hs]
    unfold signOf
    split
    · exact Or.inl ⟨_, rfl, hs, rfl⟩
    · exact Or.inr rfl
  · rw [if_neg hs]
    exact Or.inr rfl

/-- Without a minus sign in front nothing is cut off. -/
theorem signed_of_ne (ty : IntegralType) {c : Char} (hc : c ≠ '-') (cs : Text) :
    ty.signed (c :: cs) = (false, c :: cs) := by
  rcases ty.signed_cases (c :: cs) with ⟨cs', heq, _⟩ | h
  · exact absurd (List.cons.inj heq).1 hc
  · exact h

/-- The digits behind the sign make the number. -/
theorem leading_eq_some_iff {ty : IntegralType} {sv : Text} {n : Int} :
    ty.leading sv = some n ↔
      ∃ neg cs, ty.signed sv = (neg, cs) ∧ cs.takeWhile Char.isDigit ≠ [] ∧
        n = if neg then -(decimal (cs.takeWhile Char.isDigit) : Int)
          else decimal (cs.takeWhile Char.isDigit) := by
  constructor
  · intro h
    rw [leading, Option.ite_none_left_eq_some] at h
    exact ⟨_, _, rfl, h.1, (Option.some.inj h.2).symm⟩
  · rintro ⟨neg, cs, hsigned, hne, rfl⟩
    unfold leading
    simp only [hsigned, if_neg hne]

/-- **The numeral at the beginning** is the one that is found. -/
theorem beginsWith_iff {ty : IntegralType} {sv : Text} {n : Int} :
    ty.BeginsWith sv n ↔ ty.leading sv = some n := by
  rw [leading_eq_some_iff]
  constructor
  · rintro ⟨t, rest, rfl, ⟨ds, hds, ⟨rfl, rfl⟩ | ⟨rfl, rfl⟩⟩, hminus, hrest⟩
    · have htake := takeWhile_digits hds hrest
      refine ⟨false, t ++ rest, ?_, by rw [htake]; exact hds.1, by rw [htake]; rfl⟩
      obtain ⟨c, cs, rfl⟩ := List.exists_cons_of_ne_nil hds.1
      apply signed_of_ne
      rintro rfl
      have hdigit := hds.2 '-' List.mem_cons_self
      cases hdigit
    · have htake := takeWhile_digits hds hrest
      refine ⟨true, ds ++ rest, ?_, by rw [htake]; exact hds.1, by rw [htake]; rfl⟩
      cases hs : ty.isSigned with
      | false => exact absurd List.mem_cons_self (hminus hs)
      | true  =>
        rw [signed, if_pos hs]
        rfl
  · rintro ⟨neg, cs, hsigned, hne, rfl⟩
    have hdigits : IsDigits (cs.takeWhile Char.isDigit) := ⟨hne, fun c => List.mem_takeWhile_imp⟩
    have hsplit := List.takeWhile_append_dropWhile (p := Char.isDigit) (l := cs)
    have hrest : ∀ c, (cs.dropWhile Char.isDigit).head? = some c → c.isDigit = false := by
      intro c hc
      have hnot := List.head?_dropWhile_not Char.isDigit cs
      rw [hc] at hnot
      simpa using hnot
    rcases ty.signed_cases sv with ⟨cs', rfl, hs, heq⟩ | heq
    · rw [hsigned] at heq
      obtain ⟨rfl, rfl⟩ := Prod.mk.inj heq
      refine ⟨'-' :: cs.takeWhile Char.isDigit, cs.dropWhile Char.isDigit, ?_, ?_, ?_, hrest⟩
      · rw [List.cons_append, hsplit]
      · exact ⟨_, hdigits, Or.inr ⟨rfl, rfl⟩⟩
      · rw [hs]
        exact fun h => nomatch h
    · rw [hsigned] at heq
      obtain ⟨rfl, rfl⟩ := Prod.mk.inj heq
      refine ⟨cs.takeWhile Char.isDigit, cs.dropWhile Char.isDigit, hsplit.symm, ?_, ?_, hrest⟩
      · exact isNumeral_of_isDigits hdigits rfl
      · intro _ hmem
        have hdigit := hdigits.2 '-' hmem
        cases hdigit

/-- A text in range is read exactly, and nothing else is read. -/
theorem fromChars_eq_some_iff {ty : IntegralType} {sv : Text} {n : Int} :
    ty.fromChars sv = some n ↔ ty.BeginsWith sv n ∧ ty.InRange n := by
  rw [fromChars, Option.filter_eq_some_iff, beginsWith_iff, decide_eq_true_iff]

end IntegralType

end RtCharger.Utilities
