import RtCharger.Utilities.Text
import Mathlib.Algebra.Ring.Nat

namespace RtCharger.Utilities

/-!
# The loop of `split`

`split` finds one splitter after the other, by positions that start from `npos` and wrap around
to 0 with the first `pos + 1`.  It never fails (`Str.split_eq`), and what it computes is the
character by character reading of `Utilities.split`.

* `find`, `splitLoop`, `Str.split` — the function of the source, with its positions;
* `split_intercalate`, `length_splitFrom_all`, `not_mem_of_mem_dropLast` — the fields;
* `Str.split_limited` — nothing is lost, and only the last field has splitters left.
-/

/-- `size_t`. -/
abbrev SizeT : Type := BitVec 32

/-- `string::npos`. -/
def npos : SizeT := -1

/-- A string or a view: no object is larger than half of the memory. -/
structure Str where
  chars : Text
  length_lt : chars.length < 2 ^ 31

/-- `str.size()`. -/
def Str.size (str : Str) : SizeT := BitVec.ofNat 32 str.chars.length

/-- `str.find(c, pos)`. -/
def Str.find (str : Str) (c : Char) (pos : SizeT) : SizeT :=
  match (str.chars.drop pos.toNat).idxOf? c with
  | some k => BitVec.ofNat 32 (pos.toNat + k)
  | none   => npos

/-- The rounds of `split`; `none` if `substr` throws, the counter overflows, or there are more
    rounds than `fuel`. -/
def splitLoop (str : Str) (splitter : Char) (cnt : Int) :
    Nat → SizeT → Int → List Text → Option (List Text)
  | 0, _, _, _                  => none
  | fuel + 1, pos, i, result => do
    let nextPos := str.find splitter (pos + 1)
    if nextPos ≠ npos ∧ ¬(cnt ≠ -1 ∧ i = cnt) then
      let field ← substr str.chars (pos + 1).toNat (nextPos - pos - 1).toNat
      -- `i++` of the largest `int`
      if i = intMax then none
      else splitLoop str splitter cnt fuel nextPos (i + 1) (result ++ [field])
    else
      let field ← substr str.chars (pos + 1).toNat (str.size - pos - 1).toNat
      pure (result ++ [field])

/-- `split(str, splitter, cnt)`. -/
def Str.split (str : Str) (splitter : Char) (cnt : Int) : Option (List Text) :=
  splitLoop str splitter cnt (str.chars.length + 1) npos 0 []

variable {splitter : Char} {cnt : Int}

/-! ### The fields -/

theorem splitFrom_ne_nil (text field : Text) (i : Int) :
    splitFrom splitter cnt text field i ≠ [] := by
  induction text generalizing field i with
  | nil => simp [splitFrom]
  | cons c cs ih =>
    rw [splitFrom]
    split_ifs
    · exact List.cons_ne_nil _ _
    · exact ih _ _

/-- **Joining the fields** gives back the text. -/
theorem splitFrom_intercalate (text field : Text) (i : Int) :
    [splitter].intercalate (splitFrom splitter cnt text field i) = field ++ text := by
  induction text generalizing field i with
  | nil => simp [splitFrom]
  | cons c cs ih =>
    rw [splitFrom]
    split_ifs with hcut
    · rw [List.intercalate_cons_of_ne_nil (splitFrom_ne_nil _ _ _), ih, hcut.1]
      simp
    · rw [ih]
      simp

/-- Without a limit every splitter is a cut. -/
theorem length_splitFrom_all (text field : Text) (i : Int) :
    (splitFrom splitter (-1) text field i).length = text.count splitter + 1 := by
  induction text generalizing field i with
  | nil => rfl
  | cons c cs ih =>
    rw [splitFrom]
    split_ifs with hcut
    · rw [List.length_cons, ih, hcut.1, List.count_cons_self]
    · have hne : c ≠ splitter := fun heq => hcut ⟨heq, fun h => h.1 rfl⟩
      rw [ih, List.count_cons_of_ne hne]

/-- Without a limit no field has a splitter in it. -/
theorem not_mem_of_mem_splitFrom {text field : Text} {i : Int} (hfield : splitter ∉ field) :
    ∀ f ∈ splitFrom splitter (-1) text field i, splitter ∉ f := by
  induction text generalizing field i with
  | nil =>
    intro f hf
    rw [List.mem_singleton.mp hf]
    exact hfield
  | cons c cs ih =>
    rw [splitFrom]
    split_ifs with hcut
    · rw [List.forall_mem_cons]
      exact ⟨hfield, ih List.not_mem_nil⟩
    · have hne : splitter ≠ c := fun heq => hcut ⟨heq.symm, fun h => h.1 rfl⟩
      apply ih
      simp [hfield, hne]

/-- Nor has any field but the last one, with a limit. -/
theorem not_mem_of_mem_dropLast {text field : Text} {i : Int} (hfield : splitter ∉ field) :
    ∀ f ∈ (splitFrom splitter cnt text field i).dropLast, splitter ∉ f := by
  induction text generalizing field i with
  | nil =>
    intro f hf
    cases hf
  | cons c cs ih =>
    by_cases hlimit : cnt ≠ -1 ∧ i = cnt
    · -- no more cuts: there is no field but the last one
      obtain ⟨hcnt, rfl⟩ := hlimit
      rw [(splitFrom_rest (c :: cs) field).resolve_right hcnt]
      intro f hf
      cases hf
    · rw [splitFrom]
      split_ifs with hcut
      · rw [List.dropLast_cons_of_ne_nil (splitFrom_ne_nil _ _ _), List.forall_mem_cons]
        exact ⟨hfield, ih List.not_mem_nil⟩
      · have hne : splitter ≠ c := fun heq => hcut ⟨heq.symm, hlimit⟩
        apply ih
        simp [hfield, hne]

/-! ### The loop -/

/-- What `find` finds: the position behind the characters that are no splitter. -/
theorem find_append {str : Str} {pos : SizeT} {f rest : Text}
    (htext : str.chars.drop pos.toNat = f ++ splitter :: rest) (hf : splitter ∉ f) :
    str.find splitter pos = BitVec.ofNat 32 (pos.toNat + f.length) := by
  have hidx : (f ++ splitter :: rest).idxOf? splitter = some f.length := by
    rw [List.idxOf?_eq_some_iff]
    refine ⟨by simp, by simp, fun j hj heq => hf ?_⟩
    rw [List.getElem_append_left hj] at heq
    rw [← heq]
    exact List.getElem_mem hj
  rw [Str.find, htext, hidx]

/-- It finds nothing. -/
theorem find_of_not_mem {str : Str} {pos : SizeT}
    (htext : splitter ∉ str.chars.drop pos.toNat) : str.find splitter pos = npos := by
  have hidx := List.idxOf?_eq_none_iff.mpr htext
  rw [Str.find, hidx]

/-- What is left of the text, as the loop cuts it out at last. -/
theorem substr_rest (str : Str) {pos : SizeT} (hpos : (pos + 1).toNat ≤ str.chars.length) :
    substr str.chars (pos + 1).toNat (str.size - pos - 1).toNat
      = some (str.chars.drop (pos + 1).toNat) := by
  have hlt := str.length_lt
  have hcount : (str.size - pos - 1).toNat = str.chars.length - (pos + 1).toNat := by
    unfold Str.size
    bv_omega
  rw [substr, if_pos hpos, hcount, List.take_of_length_le (by rw [List.length_drop])]

/-- The position behind a splitter. -/
theorem toNat_after {n : Nat} (h : n < 2 ^ 31) :
    (BitVec.ofNat 32 n).toNat = n ∧ (BitVec.ofNat 32 n + 1 : SizeT).toNat = n + 1 := by
  constructor <;> bv_omega

/-- The last round. -/
theorem splitLoop_stop {str : Str} {pos : SizeT} {i : Int}
    (hpos : (pos + 1).toNat ≤ str.chars.length)
    (hstop : ¬(str.find splitter (pos + 1) ≠ npos ∧ ¬(cnt ≠ -1 ∧ i = cnt))) (fuel : Nat)
    (result : List Text) :
    splitLoop str splitter cnt (fuel + 1) pos i result
      = some (result ++ [str.chars.drop (pos + 1).toNat]) := by
  simp only [splitLoop, if_neg hstop, substr_rest str hpos]
  rfl

/-- A round that cuts off the field `f`. -/
theorem splitLoop_cut {str : Str} {pos : SizeT} {i : Int} {f rest : Text}
    (htext : str.chars.drop (pos + 1).toNat = f ++ splitter :: rest) (hf : splitter ∉ f)
    (hlimit : ¬(cnt ≠ -1 ∧ i = cnt)) (hi : i < intMax) (fuel : Nat) (result : List Text) :
    splitLoop str splitter cnt (fuel + 1) pos i result
      = splitLoop str splitter cnt fuel (BitVec.ofNat 32 ((pos + 1).toNat + f.length)) (i + 1)
          (result ++ [f]) := by
  have hlt := str.length_lt
  have hlen := congrArg List.length htext
  rw [List.length_drop, List.length_append, List.length_cons] at hlen
  have hfind := find_append htext hf
  obtain ⟨hnext, -⟩ := toNat_after (n := (pos + 1).toNat + f.length) (by omega)
  -- a position in the text is never taken for `npos`, since the text is not that long
  have hfound : BitVec.ofNat 32 ((pos + 1).toNat + f.length) ≠ npos := by
    intro heq
    rw [heq] at hnext
    have hnpos : npos.toNat = 4294967295 := rfl
    omega
  have hcount : (BitVec.ofNat 32 ((pos + 1).toNat + f.length) - pos - 1).toNat = f.length := by
    bv_omega
  have hfield : substr str.chars (pos + 1).toNat f.length = some f := by
    rw [substr, if_pos (by omega), htext, List.take_left]
  have hcuts : i ≠ intMax := by omega
  rw [splitLoop]
  simp only [hfind, hcount, hfield, if_pos (And.intro hfound hlimit)]
  show (if i = intMax then none else _) = _
  rw [if_neg hcuts]

/-- **The loop reads what is left of the text**, from the position behind the last splitter. -/
theorem splitLoop_eq (str : Str) {fuel : Nat} {pos : SizeT} {i : Int} (result : List Text)
    (hpos : (pos + 1).toNat ≤ str.chars.length)
    (hfuel : str.chars.length < (pos + 1).toNat + fuel) (hi : i ≤ (pos + 1).toNat) :
    splitLoop str splitter cnt fuel pos i result
      = some (result ++ splitFrom splitter cnt (str.chars.drop (pos + 1).toNat) [] i) := by
  have hlt := str.length_lt
  induction fuel generalizing pos i result with
  | zero => omega
  | succ fuel ih =>
    by_cases hlimit : cnt ≠ -1 ∧ i = cnt
    · rw [splitLoop_stop hpos (fun h => h.2 hlimit)]
      obtain ⟨hcnt, rfl⟩ := hlimit
      rw [(splitFrom_rest _ []).resolve_right hcnt, List.nil_append]
    by_cases hmem : splitter ∈ str.chars.drop (pos + 1).toNat
    · obtain ⟨f, rest, htext, hf⟩ := List.eq_append_cons_of_mem hmem
      have hlen := congrArg List.length htext
      rw [List.length_drop, List.length_append, List.length_cons] at hlen
      -- there were no more cuts than characters, so that the counter does not overflow
      have hcuts : i < intMax := by
        unfold intMax
        omega
      obtain ⟨-, hafter⟩ := toNat_after (n := (pos + 1).toNat + f.length) (by omega)
      have hrest : str.chars.drop ((pos + 1).toNat + f.length + 1) = rest := by
        rw [Nat.add_assoc, ← List.drop_drop, htext]
        simp
      rw [splitLoop_cut htext hf hlimit hcuts, ih (result ++ [f]) (by omega) (by omega) (by omega),
        hafter, hrest, htext, splitFrom_field hf hlimit, List.append_assoc]
      rfl
    · rw [splitLoop_stop hpos (fun h => h.1 (find_of_not_mem hmem)), splitFrom_last hmem,
        List.nil_append]

/-- **`split` never fails**, and reads the text from its beginning. -/
theorem Str.split_eq (str : Str) (splitter : Char) (cnt : Int) :
    str.split splitter cnt = some (Utilities.split splitter cnt str.chars) := by
  have hstart : (npos + 1).toNat = 0 := rfl
  rw [Str.split, splitLoop_eq str [] (by omega) (by omega) (by omega), hstart]
  rfl

/-- **A limited and lossless split**: the fields joined are the text, there is one more of them
    than cuts were made, and only the last one may have splitters left, if there was a limit. -/
theorem Str.split_limited (str : Str) (splitter : Char) (cnt : Int) (hcnt : cnt = -1 ∨ 0 ≤ cnt) :
    ∃ fields, str.split splitter cnt = some fields ∧
      [splitter].intercalate fields = str.chars ∧
      (fields.length : Int) = 1 + (if cnt = -1 then (str.chars.count splitter : Int)
        else min cnt (str.chars.count splitter)) ∧
      (∀ f ∈ fields.dropLast, splitter ∉ f) ∧
      (cnt = -1 → ∀ f ∈ fields, splitter ∉ f) := by
  refine ⟨_, str.split_eq splitter cnt, splitFrom_intercalate str.chars [] 0, ?_,
    not_mem_of_mem_dropLast List.not_mem_nil, ?_⟩
  · rcases hcnt with rfl | hpos
    · have hlength : (splitFrom splitter (-1) str.chars [] 0).length
          = str.chars.count splitter + 1 := length_splitFrom_all str.chars [] 0
      rw [if_pos rfl, Utilities.split, hlength]
      omega
    · obtain ⟨n, rfl⟩ := Int.eq_ofNat_of_zero_le hpos
      rw [if_neg (by omega), length_split n str.chars]
      omega
  · rintro rfl
    exact not_mem_of_mem_splitFrom List.not_mem_nil

/-- A text that begins and ends with the splitter, cut at most once. -/
theorem Str.split_limited_once :
    ∃ fields, (⟨[',', 'a', ',', ','], by decide⟩ : Str).split ',' 1 = some fields ∧
      [','].intercalate fields = [',', 'a', ',', ','] ∧
      (fields.length : Int) = 1 + (if (1 : Int) = -1 then ([',', 'a', ',', ','].count ',' : Int)
        else min 1 ([',', 'a', ',', ','].count ',')) ∧
      (∀ f ∈ fields.dropLast, ',' ∉ f) ∧
      ((1 : Int) = -1 → ∀ f ∈ fields, ',' ∉ f) :=
  Str.split_limited ⟨[',', 'a', ',', ','], by decide⟩ ',' 1 (.inr (by decide))

end RtCharger.Utilities
