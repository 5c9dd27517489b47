import Mathlib.Data.List.TakeWhile
import Mathlib.Algebra.Group.Int.Defs

namespace RtCharger.Utilities

/-!
# Texts, fields and numbers

`split` of `string.cxx`, and what `parse` of `string.hxx` and the modem drivers use of the C++
library: `substr`, `from_chars` for an `int`, and `strtol` in base 16.

* `split_field`, `split_rest` — how `split` cuts off one field, and when it stops cutting;
* `IsNumeral` — a text is a decimal numeral of an integer;
* `fromChars_of_isNumeral` — a numeral in range is read exactly;
* `IsHex`, `strtol16_pair` — two hex digits are read as the byte they stand for.
-/

/-- The characters of a string or of a view. -/
abbrev Text : Type := List Char

/-- `substr(pos, count)`; `none` when `pos` is out of range and the call throws. -/
def substr (s : Text) (pos count : Nat) : Option Text :=
  if pos ≤ s.length then some ((s.drop pos).take count) else none

/-! ### `split` -/

section Split

variable (splitter : Char) (cnt : Int)

/-- The loop of `split`: what is left of the text, what was read since the last cut, and the
    number `i` of cuts. -/
def splitFrom : Text → Text → Int → List Text
  | [], field, _      => [field]
  | c :: cs, field, i =>
    if c = splitter ∧ ¬(cnt ≠ -1 ∧ i = cnt) then field :: splitFrom cs [] (i + 1)
    else splitFrom cs (field ++ [c]) i

/-- `split(str, splitter, cnt)`: at most `cnt` cuts, or as many as there are if `cnt` is `-1`. -/
def split (str : Text) : List Text := splitFrom splitter cnt str [] 0

variable {splitter cnt}

/-- One cut. -/
theorem splitFrom_field {f rest : Text} (hf : splitter ∉ f) {i : Int} (hi : ¬(cnt ≠ -1 ∧ i = cnt))
    (field : Text) :
    splitFrom splitter cnt (f ++ splitter :: rest) field i
      = (field ++ f) :: splitFrom splitter cnt rest [] (i + 1) := by
  induction f generalizing field with
  | nil =>
    rw [List.nil_append, splitFrom, if_pos ⟨rfl, hi⟩, List.append_nil]
  | cons c cs ih =>
    simp only [List.mem_cons, not_or] at hf
    obtain ⟨hc, hcs⟩ := hf
    rw [List.cons_append, splitFrom, if_neg fun h => hc h.1.symm, ih hcs]
    simp

/-- No more cuts: the rest is one field, whatever is in it. -/
theorem splitFrom_rest (rest field : Text) :
    splitFrom splitter cnt rest field cnt = [field ++ rest] ∨ cnt = -1 := by
  by_cases hcnt : cnt = -1
  · exact .inr hcnt
  · left
    induction rest generalizing field with
    | nil => simp [splitFrom]
    | cons c cs ih =>
      rw [splitFrom, if_neg (fun h => h.2 ⟨hcnt, rfl⟩), ih]
      simp

/-- A text without the splitter is one field. -/
theorem splitFrom_last {f : Text} (hf : splitter ∉ f) (field : Text) (i : Int) :
    splitFrom splitter cnt f field i = [field ++ f] := by
  induction f generalizing field with
  | nil => simp [splitFrom]
  | cons c cs ih =>
    simp only [List.mem_cons, not_or] at hf
    obtain ⟨hc, hcs⟩ := hf
    rw [splitFrom, if_neg fun h => hc h.1.symm, ih hcs]
    simp

/-- Counting the cuts from another number makes no difference. -/
theorem splitFrom_succ (cnt i : Nat) (text field : Text) :
    splitFrom splitter (cnt + 1 : Nat) text field (i + 1 : Nat)
      = splitFrom splitter cnt text field i := by
  have hneg : ∀ n : Nat, (n : Int) ≠ -1 := fun n => by omega
  induction text generalizing field i with
  | nil => rfl
  | cons c cs ih =>
    have hiff : ((i + 1 : Nat) : Int) = ((cnt + 1 : Nat) : Int) ↔ (i : Int) = cnt := by omega
    have hcut := ih (i + 1) []
    simp only [splitFrom, ne_eq, hneg, not_false_eq_true, true_and, hiff, ih i]
    push_cast at hcut ⊢
    rw [hcut]

/-- No cut at all. -/
theorem split_zero (text : Text) : split splitter 0 text = [text] := by
  have hrest : splitFrom splitter 0 text [] 0 = [[] ++ text] ∨ (0 : Int) = -1 :=
    splitFrom_rest text []
  rcases hrest with h | h
  · exact h
  · cases h

/-- A text without the splitter is not cut. -/
theorem split_of_not_mem {text : Text} (h : splitter ∉ text) : split splitter cnt text = [text] :=
  splitFrom_last h [] 0

/-- One cut, and then one less. -/
theorem split_append {f : Text} (hf : splitter ∉ f) (cnt : Nat) (rest : Text) :
    split splitter (cnt + 1 : Nat) (f ++ splitter :: rest) = f :: split splitter cnt rest := by
  rw [split, splitFrom_field hf (by omega), List.nil_append, split]
  exact congrArg _ (splitFrom_succ cnt 0 rest [])

/-- As many cuts as there are splitters, but not more than asked for. -/
theorem length_split (cnt : Nat) (text : Text) :
    (split splitter cnt text).length = min (text.count splitter) cnt + 1 := by
  induction cnt generalizing text with
  | zero =>
    have hone : (split splitter (0 : Nat) text).length = 1 := congrArg List.length (split_zero text)
    rw [hone, Nat.min_zero]
  | succ cnt ih =>
    by_cases hmem : splitter ∈ text
    · obtain ⟨f, rest, rfl, hf⟩ := List.eq_append_cons_of_mem hmem
      rw [split_append hf, List.length_cons, ih, List.count_append, List.count_cons_self,
        List.count_eq_zero.mpr hf]
      omega
    · rw [split_of_not_mem hmem, List.count_eq_zero.mpr hmem, Nat.zero_min]
      rfl

end Split

/-! ### Decimal numbers -/

/-- `std::numeric_limits<int>::min()`. -/
def intMin : Int := -2147483648

/-- `std::numeric_limits<int>::max()`. -/
def intMax : Int := 2147483647

/-- The number that decimal digits write. -/
def decimal (ds : Text) : Nat := ds.foldl (fun n c => 10 * n + (c.toNat - 48)) 0

/-- A minus sign, and what follows it. -/
def signOf : Text → Bool × Text
  | '-' :: cs => (true, cs)
  | cs        => (false, cs)

/-- `std::from_chars` for an `int`: an optional minus sign and as many digits as there are;
    `none` when it fails, and leaves the variable as it is. -/
def fromChars (sv : Text) : Option Int :=
  let ds := (signOf sv).2.takeWhile Char.isDigit
  if ds = [] then none
  else
    let value : Int := if (signOf sv).1 then -(decimal ds : Int) else decimal ds
    if intMin ≤ value ∧ value ≤ intMax then some value else none

/-- `parse<int>`: the variable is not initialised, so that a text that is no number gives
    whatever it holds. -/
def parseInt (sv : Text) (uninitialised : Int) : Int := (fromChars sv).getD uninitialised

/-- Decimal digits, at least one of them. -/
def IsDigits (ds : Text) : Prop := ds ≠ [] ∧ ∀ c ∈ ds, c.isDigit = true

instance (ds : Text) : Decidable (IsDigits ds) :=
  decidable_of_iff (ds.isEmpty = false ∧ ds.all Char.isDigit = true) <| by
    rw [List.isEmpty_eq_false_iff, List.all_eq_true]
    exact Iff.rfl

/-- The text writes the integer in decimal. -/
def IsNumeral (t : Text) (n : Int) : Prop :=
  ∃ ds, IsDigits ds ∧ ((t = ds ∧ n = decimal ds) ∨ (t = '-' :: ds ∧ n = -(decimal ds : Int)))

theorem isNumeral_of_isDigits {ds : Text} (h : IsDigits ds) {n : Int} (hn : n = decimal ds) :
    IsNumeral ds n :=
  ⟨ds, h, .inl ⟨rfl, hn⟩⟩

theorem signOf_of_ne {c : Char} (hc : c ≠ '-') (cs : Text) : signOf (c :: cs) = (false, c :: cs) := by
  unfold signOf
  split
  · rename_i heq
    exact absurd (List.cons.inj heq).1 hc
  · rfl

theorem takeWhile_of_isDigits {ds : Text} (h : IsDigits ds) : ds.takeWhile Char.isDigit = ds :=
  List.takeWhile_eq_self_iff.mpr h.2

theorem signOf_of_isDigits {ds : Text} (h : IsDigits ds) : signOf ds = (false, ds) := by
  obtain ⟨hne, hall⟩ := h
  cases ds with
  | nil => exact absurd rfl hne
  | cons c cs =>
    apply signOf_of_ne
    rintro rfl
    have hc := hall '-' List.mem_cons_self
    cases hc

/-- **A numeral in range is read exactly.** -/
theorem fromChars_of_isNumeral {t : Text} {n : Int} (h : IsNumeral t n) (hlo : intMin ≤ n)
    (hhi : n ≤ intMax) : fromChars t = some n := by
  obtain ⟨ds, hds, ⟨rfl, rfl⟩ | ⟨rfl, rfl⟩⟩ := h
  · rw [fromChars, signOf_of_isDigits hds]
    simp [takeWhile_of_isDigits hds, hds.1, hlo, hhi]
  · have hsign : signOf ('-' :: ds) = (true, ds) := rfl
    rw [fromChars, hsign]
    simp [takeWhile_of_isDigits hds, hds.1, hlo, hhi]

/-- It is what `parse<int>` returns. -/
theorem parseInt_of_isNumeral {t : Text} {n : Int} (h : IsNumeral t n) (hlo : intMin ≤ n)
    (hhi : n ≤ intMax) (uninitialised : Int) : parseInt t uninitialised = n := by
  rw [parseInt, fromChars_of_isNumeral h hlo hhi]
  rfl

/-- A numeral is not empty, and consists of digits behind an optional minus sign. -/
theorem IsNumeral.mem {t : Text} {n : Int} (h : IsNumeral t n) :
    t ≠ [] ∧ ∀ c ∈ t, c = '-' ∨ c.isDigit = true := by
  obtain ⟨ds, ⟨hne, hall⟩, ⟨rfl, -⟩ | ⟨rfl, -⟩⟩ := h
  · exact ⟨hne, fun c hc => .inr (hall c hc)⟩
  · exact ⟨by simp, fun c hc => (List.mem_cons.mp hc).imp_right (hall c)⟩

/-- A character that is neither a minus sign nor a digit is not in a numeral. -/
theorem IsNumeral.not_mem {t : Text} {n : Int} (h : IsNumeral t n) {c : Char} (hc : c ≠ '-')
    (hd : c.isDigit = false) : c ∉ t := by
  intro hmem
  rcases h.mem.2 c hmem with heq | hdigit
  · exact hc heq
  · rw [hd] at hdigit
    cases hdigit

/-! ### Hexadecimal numbers -/

/-- The value of a hex digit of either case. -/
def hexValue (c : Char) : Option Nat :=
  if 48 ≤ c.toNat ∧ c.toNat ≤ 57 then some (c.toNat - 48)
  else if 97 ≤ c.toNat ∧ c.toNat ≤ 102 then some (c.toNat - 87)
  else if 65 ≤ c.toNat ∧ c.toNat ≤ 70 then some (c.toNat - 55)
  else none

/-- `isspace`. -/
def isSpace (c : Char) : Bool := c = ' ' || (9 ≤ c.toNat && c.toNat ≤ 13)

/-- A sign, and what follows it. -/
def signOf16 : Text → Bool × Text
  | '-' :: cs => (true, cs)
  | '+' :: cs => (false, cs)
  | cs        => (false, cs)

/-- `0x` is skipped when a digit follows. -/
def skip0x : Text → Text
  | '0' :: x :: c :: cs =>
    if (x = 'x' ∨ x = 'X') ∧ (hexValue c).isSome then c :: cs else '0' :: x :: c :: cs
  | cs => cs

/-- `strtol(s, nullptr, 16)` of a text short enough not to overflow. -/
def strtol16 (s : Text) : Int :=
  let signed := signOf16 (s.dropWhile isSpace)
  let ds := (skip0x signed.2).takeWhile fun c => (hexValue c).isSome
  let n := ds.foldl (fun n c => 16 * n + (hexValue c).getD 0) 0
  if signed.1 then -(n : Int) else n

/-- The conversion to `char`. -/
def toChar (n : Int) : UInt8 := UInt8.ofNat (n.emod 256).toNat

/-- The text writes the bytes, each as two hex digits of either case. -/
inductive IsHex : List UInt8 → Text → Prop
  | nil : IsHex [] []
  | cons {b : UInt8} {c d : Char} {bs : List UInt8} {t : Text}
      (hhigh : hexValue c = some (b.toNat / 16)) (hlow : hexValue d = some (b.toNat % 16))
      (hrest : IsHex bs t) : IsHex (b :: bs) (c :: d :: t)

theorem hexValue_range {c : Char} {x : Nat} (h : hexValue c = some x) :
    (48 ≤ c.toNat ∧ c.toNat ≤ 57) ∨ (97 ≤ c.toNat ∧ c.toNat ≤ 102) ∨
      (65 ≤ c.toNat ∧ c.toNat ≤ 70) := by
  unfold hexValue at h
  split at h
  · exact .inl ‹_›
  · split at h
    · exact .inr (.inl ‹_›)
    · split at h
      · exact .inr (.inr ‹_›)
      · cases h

/-- A character with another code is no hex digit. -/
theorem ne_of_hexValue {c d : Char} {x : Nat} (h : hexValue c = some x)
    (hd : d.toNat < 48 ∨ (57 < d.toNat ∧ d.toNat < 65) ∨ (70 < d.toNat ∧ d.toNat < 97) ∨
      102 < d.toNat) : c ≠ d := by
  rintro rfl
  have hrange := hexValue_range h
  omega

/-- Two hex digits are read as the number they write: there is no space, sign or `0x` to skip. -/
theorem strtol16_pair {c d : Char} {x y : Nat} (hc : hexValue c = some x)
    (hd : hexValue d = some y) : strtol16 [c, d] = (16 * x + y : Nat) := by
  have hspace : isSpace c = false := by
    have hrange := hexValue_range hc
    have hne : c ≠ ' ' := ne_of_hexValue hc (.inl (by decide))
    have hnine : ¬(9 ≤ c.toNat ∧ c.toNat ≤ 13) := by omega
    simp [isSpace, hne]
    omega
  have hsign : signOf16 [c, d] = (false, [c, d]) := by
    have hminus : c ≠ '-' := ne_of_hexValue hc (.inl (by decide))
    have hplus : c ≠ '+' := ne_of_hexValue hc (.inl (by decide))
    unfold signOf16
    split
    · rename_i heq
      exact absurd (List.cons.inj heq).1 hminus
    · rename_i heq
      exact absurd (List.cons.inj heq).1 hplus
    · rfl
  have hskip : skip0x [c, d] = [c, d] := by
    unfold skip0x
    split
    · rename_i heq
      simp at heq
    · rfl
  have hdrop : [c, d].dropWhile isSpace = [c, d] := by simp [hspace]
  simp [strtol16, hdrop, hsign, hskip, hc, hd]

/-- The byte that two hex digits stand for. -/
theorem toChar_strtol16_pair {b : UInt8} {c d : Char} (hc : hexValue c = some (b.toNat / 16))
    (hd : hexValue d = some (b.toNat % 16)) : toChar (strtol16 [c, d]) = b := by
  have hval : 16 * (b.toNat / 16) + b.toNat % 16 = b.toNat := Nat.div_add_mod _ _
  have hlt := b.toNat_lt
  rw [strtol16_pair hc hd, hval, toChar]
  have hmod : ((b.toNat : Int).emod 256).toNat = b.toNat := by
    have : (b.toNat : Int).emod 256 = b.toNat := Int.emod_eq_of_lt (by omega) (by omega)
    rw [this]
    exact Int.toNat_natCast _
  rw [hmod]
  exact UInt8.ofNat_toNat

/-- The digits of a byte string are hex digits, two for each byte. -/
theorem IsHex.length_eq {bs : List UInt8} {t : Text} (h : IsHex bs t) :
    t.length = 2 * bs.length := by
  induction h with
  | nil => rfl
  | cons _ _ _ ih =>
    simp only [List.length_cons, ih]
    omega

theorem IsHex.not_mem {bs : List UInt8} {t : Text} (h : IsHex bs t) {e : Char}
    (he : e.toNat < 48 ∨ (57 < e.toNat ∧ e.toNat < 65) ∨ (70 < e.toNat ∧ e.toNat < 97) ∨
      102 < e.toNat) : e ∉ t := by
  induction h with
  | nil => exact List.not_mem_nil
  | cons hhigh hlow _ ih =>
    simp only [List.mem_cons, not_or]
    exact ⟨(ne_of_hexValue hhigh he).symm, (ne_of_hexValue hlow he).symm, ih⟩

end RtCharger.Utilities
