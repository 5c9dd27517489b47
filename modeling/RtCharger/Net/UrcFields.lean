import RtCharger.Net.UrcShortLines

namespace RtCharger.Net

open RtCharger.Utilities

/-!
# What preprocessing makes of a field

`PreprocessArg` is meant to take away the leading spaces of a field and then a pair of quotes
around the rest.  It looks for the quotes without asking how long the rest is, and there are two
texts that it cannot deal with: of an empty one it reads the first character, and of a single
quote it takes the same character away twice.

* `stripped` — what is asked for;
* `preprocessArg_eq_stripped_iff` — when that is what comes out.
-/

/-- A text that begins with a quote and ends with another one. -/
def Quoted (t : Text) : Prop := 2 ≤ t.length ∧ t.head? = some '"' ∧ t.getLast? = some '"'

instance (t : Text) : Decidable (Quoted t) := inferInstanceAs (Decidable (_ ∧ _ ∧ _))

/-- The field without its leading spaces and without the quotes around the rest, as the options
    ask for. -/
def stripped (opt : Options) (sv : Text) : Text :=
  let rest := padRemoved opt sv
  if opt.unwrapQuota = true ∧ Quoted rest then rest.tail.dropLast else rest

/-- Without `UnwrapQuota` nothing else is read. -/
theorem preprocessArg_of_not_unwrap {opt : Options} (h : opt.unwrapQuota = false) (sv : Text) :
    preprocessArg sv opt = some (padRemoved opt sv) := by
  simp only [preprocessArg, drop_pad, h, Bool.false_eq_true, if_false, padRemoved]

/-- Two quotes are taken away, except that they may be one. -/
theorem unquoted_eq_iff (t : Text) :
    unquoted t = (if Quoted t then t.tail.dropLast else t) ↔ t ≠ ['"'] := by
  unfold unquoted
  by_cases hq : t.head? = some '"' ∧ t.getLast? = some '"'
  · rw [if_pos hq]
    by_cases hlen : 2 ≤ t.length
    · have hquoted : Quoted t := ⟨hlen, hq⟩
      rw [if_pos hquoted]
      constructor
      · rintro - rfl
        exact absurd hlen (by decide)
      · intro _
        rfl
    · have hnot : ¬ Quoted t := fun h => hlen h.1
      rw [if_neg hnot]
      -- both comparisons have looked at the only character
      have hone : t = ['"'] := by
        match t, hq.1, hlen with
        | [c], hc, _ => cases hc; rfl
        | _ :: _ :: _, _, hlen => exact absurd (by simp) hlen
      subst hone
      decide
  · have hnot : ¬ Quoted t := fun h => hq h.2
    rw [if_neg hq, if_neg hnot]
    constructor
    · rintro - rfl
      exact hq ⟨rfl, rfl⟩
    · intro _
      rfl

/-- **Preprocessing strips what it should** and reads no other position, exactly when quotes are
    not to be unwrapped or what is left for it is neither empty nor a single quote. -/
theorem preprocessArg_eq_stripped_iff (sv : Text) (opt : Options) :
    preprocessArg sv opt = some (stripped opt sv) ↔
      opt.unwrapQuota = false ∨ (padRemoved opt sv ≠ [] ∧ padRemoved opt sv ≠ ['"']) := by
  unfold stripped
  cases h : opt.unwrapQuota with
  | false => simp [preprocessArg_of_not_unwrap h]
  | true =>
    simp only [true_and, Bool.true_eq_false, false_or]
    by_cases hne : padRemoved opt sv = []
    · have hnone : preprocessArg sv opt = none := preprocessArg_eq_none_iff.mpr ⟨h, hne⟩
      simp [hnone, hne]
    · rw [preprocessArg_of_unwrap h hne, Option.some.injEq, unquoted_eq_iff]
      exact (and_iff_right hne).symm

/-- Of an empty field the first character is read, and of a single quote nothing is left. -/
theorem preprocessArg_empty_and_quote :
    preprocessArg [] kDefaultOpt = none ∧ preprocessArg [' ', ' '] kDefaultOpt = none ∧
      preprocessArg ['"'] kDefaultOpt = some [] ∧ stripped kDefaultOpt ['"'] = ['"'] := by
  decide

end RtCharger.Net
