import RtCharger.Utilities.Text
import Mathlib.Data.List.TakeWhile

namespace RtCharger.Net

open RtCharger.Utilities

/-!
# The text of a command

`at_vprintf` formats a command into `send_buf`, with `%d` and `%s`, and writes as many characters
to the device as the formatted text has.  A `%s` prints a text up to its first NUL, and a text
that does not fit into the buffer is cut, so that the device gets the end of the buffer and then
what happens to lie behind it.

* `formatD`, `cString` — what `%d` and `%s` print;
* `atVprintf` — what the device gets;
* `atVprintf_eq_self_iff`, `atVprintf_eq_iff` — which texts arrive, and which can be told apart.
-/

/-- The character NUL. -/
def nul : Char := Char.ofNat 0

/-- What `%d` prints. -/
def formatD (n : Int) : Text :=
  if n < 0 then '-' :: Nat.toDigits 10 n.natAbs else Nat.toDigits 10 n.natAbs

/-- What `%s` prints of a text: its characters before the first NUL. -/
def cString (t : Text) : Text := t.takeWhile fun c => c != nul

/-- `AT_CMD_MAX_LEN`, the size of `send_buf`. -/
def atCmdMaxLen : Nat := 2048

/-- `at_vprintf` of a formatted text: `vsnprintf` leaves room for a NUL in `send_buf`, but counts
    all characters.  The memory behind the buffer is `beyond`. -/
def atVprintf (beyond : Nat → Char) (text : Text) : Text :=
  if text.length < atCmdMaxLen then text
  else text.take (atCmdMaxLen - 1) ++ nul :: (List.range (text.length - atCmdMaxLen)).map beyond

/-! ### What is printed -/

/-- A text without a NUL is printed as it is. -/
theorem cString_of_not_mem {t : Text} (h : nul ∉ t) : cString t = t := by
  apply List.takeWhile_eq_self_iff.mpr
  intro c hc
  exact bne_iff_ne.mpr fun heq => h (heq ▸ hc)

/-- There is no NUL in what is printed of a text. -/
theorem nul_not_mem_cString (t : Text) : nul ∉ cString t := by
  intro hmem
  have hne := List.mem_takeWhile_imp hmem
  exact bne_iff_ne.mp hne rfl

/-- A text that goes on behind one without a NUL is printed with the rest up to the first one. -/
theorem cString_append {t : Text} (h : nul ∉ t) (rest : Text) :
    cString (t ++ rest) = t ++ cString rest := by
  apply List.takeWhile_append_of_pos
  intro c hc
  exact bne_iff_ne.mpr fun heq => h (heq ▸ hc)

/-- Numbers are printed with digits. -/
theorem formatD_natCast (n : Nat) : formatD (n : Int) = Nat.toDigits 10 n := by
  rw [formatD, if_neg (by omega), Int.natAbs_natCast]

/-- The digits of a number are digits. -/
theorem isDigit_of_mem_formatD {n : Nat} {c : Char} (h : c ∈ formatD n) : c.isDigit = true := by
  rw [formatD_natCast] at h
  exact Nat.isDigit_of_mem_toDigits (by decide) (by decide) h

/-- Different numbers are printed differently. -/
theorem formatD_injective {m n : Nat} (h : formatD m = formatD n) : m = n := by
  rw [formatD_natCast, formatD_natCast] at h
  have hvalue := congrArg (fun ds => Nat.ofDigitChars 10 ds 0) h
  simp only [Nat.ofDigitChars_ten_toDigits] at hvalue
  exact hvalue

theorem nul_not_mem_formatD (n : Nat) : nul ∉ formatD n := by
  intro hmem
  have hdigit := isDigit_of_mem_formatD hmem
  revert hdigit
  decide

/-! ### What the device gets -/

variable (beyond : Nat → Char)

theorem atVprintf_of_lt {text : Text} (h : text.length < atCmdMaxLen) :
    atVprintf beyond text = text := if_pos h

/-- As many characters as the text has. -/
theorem length_atVprintf (text : Text) : (atVprintf beyond text).length = text.length := by
  unfold atVprintf
  split_ifs with hlt
  · rfl
  · simp only [List.length_append, List.length_take, List.length_cons, List.length_map,
      List.length_range]
    unfold atCmdMaxLen at *
    omega

/-- All that fits into the buffer is written. -/
theorem take_atVprintf (text : Text) :
    (atVprintf beyond text).take (atCmdMaxLen - 1) = text.take (atCmdMaxLen - 1) := by
  unfold atVprintf
  split_ifs with hlt
  · rfl
  · apply List.take_left'
    rw [List.length_take]
    omega

/-- **A text without a NUL arrives** exactly when it fits into the buffer. -/
theorem atVprintf_eq_self_iff {text : Text} (h : nul ∉ text) :
    atVprintf beyond text = text ↔ text.length < atCmdMaxLen := by
  constructor
  · intro heq
    by_contra hlong
    -- the last character of the buffer is a NUL
    apply h
    rw [← heq, atVprintf, if_neg hlong]
    exact List.mem_append_right _ List.mem_cons_self
  · exact atVprintf_of_lt beyond

/-- **Two texts are told apart** by their lengths and by what fits into the buffer. -/
theorem atVprintf_eq_iff (text text' : Text) :
    atVprintf beyond text = atVprintf beyond text' ↔
      text.length = text'.length ∧
        text.take (atCmdMaxLen - 1) = text'.take (atCmdMaxLen - 1) := by
  constructor
  · intro heq
    have hlength := congrArg List.length heq
    have htake := congrArg (List.take (atCmdMaxLen - 1)) heq
    rw [length_atVprintf, length_atVprintf] at hlength
    rw [take_atVprintf, take_atVprintf] at htake
    exact ⟨hlength, htake⟩
  · rintro ⟨hlength, htake⟩
    unfold atVprintf
    rw [← hlength, ← htake]
    split_ifs with hlt
    · have hall : ∀ t : Text, t.length = text.length → t.take (atCmdMaxLen - 1) = t := by
        intro t ht
        apply List.take_of_length_le
        omega
      rw [← hall text rfl, htake, hall text' hlength.symm]
    · rfl

end RtCharger.Net
