import RtCharger.Os.CompactedEventSet

namespace RtCharger.Os

open Kernel CompactedEventSet

/-!
# `Timeout`

A `Timeout` remembers the tick at which it expires, in the 32 bits of the tick counter, and says
how long that still is.  The counter wraps around, and so does the sum that makes the tick of
expiry; the difference is taken without a wrap, in 64 bits.  One value of the tick of expiry
says that there is none.

* `Faithful` — the tick of expiry and the counter are on the same side of a wrap;
* `remain_marker`, `remain_early`, `remain_late` — what is reported otherwise;
* `remain_iff` — the report is right exactly under `Faithful`;
* `rtTimeout_remain` — what this makes of a wait on an event.
-/

/-- `RT_WAITING_FOREVER` as an `rt_tick_t`. -/
def waitingForeverTick : BitVec 32 := BitVec.ofInt 32 rtWaitingForever

/-- `Timeout`. -/
structure Timeout where
  expired : BitVec 32
deriving DecidableEq, Repr

namespace Timeout

/-- `Timeout::Timeout`, where `rt_tick_get()` is `tick`. -/
def new (tick : BitVec 32) (timeout : Int) : Timeout :=
  if timeout = millisecondsMax then ⟨waitingForeverTick⟩
  -- the sum is a `long long`, which is narrowed to an `rt_tick_t`
  else ⟨BitVec.ofInt 32 (tick.toNat + timeout)⟩

/-- `Timeout::remain`, where `rt_tick_get()` is `tick`. -/
def remain (t : Timeout) (tick : BitVec 32) : Int :=
  if t.expired = waitingForeverTick then millisecondsMax
  else
    let val : Int := t.expired.toNat - tick.toNat
    if val < 0 then 0 else val

/-- The counter `e` ticks after it was `n`. -/
def later (n : BitVec 32) (e : Nat) : BitVec 32 := n + BitVec.ofNat 32 e

/-- What `remain()` says `e` ticks after the construction of `Timeout(d)` at the tick `n`. -/
def reported (n : BitVec 32) (d e : Nat) : Int := (new n d).remain (later n e)

/-- **A time-out of `d` is right** after `e` ticks: it says what is left, and so neither that it
    never expires nor, before it does, that it has. -/
structure Right (n : BitVec 32) (d e : Nat) : Prop where
  left : reported n d e = max 0 ((d : Int) - e)
  finite : reported n d e ≠ millisecondsMax
  notEarly : e < d → reported n d e ≠ 0

/-- The tick of expiry is not the one that stands for none, and it has wrapped if and only if
    the counter has. -/
def Faithful (n : BitVec 32) (d e : Nat) : Prop :=
  n.toNat + d ≠ 2 ^ 32 - 1 ∧ (n.toNat + d < 2 ^ 32 ↔ n.toNat + e < 2 ^ 32)

instance (n : BitVec 32) (d e : Nat) : Decidable (Faithful n d e) :=
  inferInstanceAs (Decidable (_ ∧ _))

/-! ### What is reported -/

theorem toNat_waitingForeverTick : waitingForeverTick.toNat = 2 ^ 32 - 1 := by decide

theorem toNat_later (n : BitVec 32) (e : Nat) : (later n e).toNat = (n.toNat + e) % 2 ^ 32 := by
  rw [later, BitVec.toNat_add, BitVec.toNat_ofNat, Nat.add_mod_mod]

/-- No length up to `2 ^ 31` is `milliseconds::max()`. -/
theorem ne_millisecondsMax {d : Nat} (hd : d < 2 ^ 31) : (d : Int) ≠ millisecondsMax := by
  unfold millisecondsMax
  omega

theorem toNat_expired (n : BitVec 32) {d : Nat} (hd : d < 2 ^ 31) :
    (new n d).expired.toNat = (n.toNat + d) % 2 ^ 32 := by
  rw [new, if_neg (ne_millisecondsMax hd)]
  show (BitVec.ofInt 32 ((n.toNat : Int) + d)).toNat = _
  rw [← Int.natCast_add, BitVec.ofInt_natCast, BitVec.toNat_ofNat]

/-- A time-out of `milliseconds::max()` never expires. -/
theorem remain_forever (n tick : BitVec 32) :
    (new n millisecondsMax).remain tick = millisecondsMax := by
  rw [new, if_pos rfl, remain, if_pos rfl]

/-- `expired` is the marker if the sum is. -/
theorem expired_eq_marker_iff (n : BitVec 32) {d : Nat} (hd : d < 2 ^ 31) :
    (new n d).expired = waitingForeverTick ↔ n.toNat + d = 2 ^ 32 - 1 := by
  have hn := n.isLt
  rw [← BitVec.toNat_inj, toNat_expired n hd, toNat_waitingForeverTick]
  omega

/-- The report by the two wrapped numbers. -/
theorem reported_eq (n : BitVec 32) {d : Nat} (hd : d < 2 ^ 31) (e : Nat)
    (hmark : n.toNat + d ≠ 2 ^ 32 - 1) :
    reported n d e
      = max 0 ((((n.toNat + d) % 2 ^ 32 : Nat) : Int) - ((n.toNat + e) % 2 ^ 32 : Nat)) := by
  have hne : (new n d).expired ≠ waitingForeverTick :=
    fun h => hmark ((expired_eq_marker_iff n hd).mp h)
  rw [reported, remain, if_neg hne, toNat_expired n hd, toNat_later]
  show (if _ then _ else _) = _
  split_ifs with hneg
  · exact (Int.max_eq_left (Int.le_of_lt hneg)).symm
  · exact (Int.max_eq_right (Int.not_lt.mp hneg)).symm

/-- A tick of expiry that happens to be `RT_WAITING_FOREVER` is none. -/
theorem remain_marker (n : BitVec 32) {d : Nat} (hd : d < 2 ^ 31) (e : Nat)
    (hmark : n.toNat + d = 2 ^ 32 - 1) : reported n d e = millisecondsMax := by
  rw [reported, remain, if_pos ((expired_eq_marker_iff n hd).mpr hmark)]

/-- A tick of expiry beyond the wrap is in the past until the counter has wrapped too. -/
theorem remain_early (n : BitVec 32) {d : Nat} (hd : d < 2 ^ 31) (e : Nat)
    (hexpired : 2 ^ 32 ≤ n.toNat + d) (hnow : n.toNat + e < 2 ^ 32) : reported n d e = 0 := by
  have hn := n.isLt
  rw [reported_eq n hd e (by omega)]
  omega

/-- A tick of expiry before the wrap is far in the future once the counter has wrapped. -/
theorem remain_late (n : BitVec 32) {d e : Nat} (hd : d < 2 ^ 31) (he : e < 2 ^ 31)
    (hexpired : n.toNat + d < 2 ^ 32 - 1) (hnow : 2 ^ 32 ≤ n.toNat + e) :
    reported n d e = 2 ^ 32 + d - e := by
  have hn := n.isLt
  rw [reported_eq n hd e (by omega)]
  omega

/-- On the same side of a wrap the difference is the one of the times. -/
theorem remain_faithful {n : BitVec 32} {d e : Nat} (hd : d < 2 ^ 31) (he : e < 2 ^ 31)
    (h : Faithful n d e) : reported n d e = max 0 ((d : Int) - e) := by
  obtain ⟨hmark, hside⟩ := h
  have hn := n.isLt
  rw [reported_eq n hd e hmark]
  omega

/-- The three ways in which it can go wrong. -/
theorem not_faithful {n : BitVec 32} {d e : Nat} (h : ¬ Faithful n d e) :
    n.toNat + d = 2 ^ 32 - 1 ∨ (2 ^ 32 ≤ n.toNat + d ∧ n.toNat + e < 2 ^ 32) ∨
      (n.toNat + d < 2 ^ 32 - 1 ∧ 2 ^ 32 ≤ n.toNat + e) := by
  unfold Faithful at h
  omega

/-! ### The law -/

theorem right_of_faithful {n : BitVec 32} {d e : Nat} (hd : d < 2 ^ 31) (he : e < 2 ^ 31)
    (h : Faithful n d e) : Right n d e := by
  have hleft := remain_faithful hd he h
  refine ⟨hleft, ?_, fun hlt => ?_⟩
  · rw [hleft, millisecondsMax]
    omega
  · rw [hleft]
    omega

theorem not_right_of_not_faithful {n : BitVec 32} {d e : Nat} (hd : d < 2 ^ 31)
    (he : e < 2 ^ 31) (h : ¬ Faithful n d e) : ¬ Right n d e := by
  intro hright
  rcases not_faithful h with hmark | ⟨hexpired, hnow⟩ | ⟨hexpired, hnow⟩
  · exact hright.finite (remain_marker n hd e hmark)
  · -- the tick of expiry is ahead, so that something is left
    exact hright.notEarly (by omega) (remain_early n hd e hexpired hnow)
  · have hleft := hright.left
    rw [remain_late n hd he hexpired hnow] at hleft
    omega

/-- **A time-out is right** exactly while its tick of expiry is not the marker and has wrapped
    if and only if the counter has; one of `milliseconds::max()` always is. -/
theorem remain_iff (n : BitVec 32) {d e : Nat} (hd : d < 2 ^ 31) (he : e < 2 ^ 31) :
    (Right n d e ↔ Faithful n d e) ∧
      ∀ tick, (new n millisecondsMax).remain tick = millisecondsMax := by
  refine ⟨⟨fun hright => ?_, right_of_faithful hd he⟩, remain_forever n⟩
  by_contra hnot
  exact not_right_of_not_faithful hd he hnot hright

/-- A second that ends before the wrap. -/
theorem remain_iff_second :
    (Right 4294960000#32 1000 400 ↔ Faithful 4294960000#32 1000 400) ∧
      ∀ tick, (new 4294960000#32 millisecondsMax).remain tick = millisecondsMax :=
  remain_iff 4294960000#32 (by decide) (by decide)

/-- A second that starts 500 ticks before the wrap has expired at once. -/
theorem expired_at_once : ¬ Right 4294966796#32 1000 0 := by
  intro h
  exact h.notEarly (by decide) (by decide)

/-! ### Waiting on an event -/

/-- **The wait** that `remain()` is given to ends when it should if the report is right; on the
    other side of a wrap it ends at once or never: a negative time-out of the kernel is none. -/
theorem rtTimeout_remain (n : BitVec 32) {d e : Nat} (hd : d < 2 ^ 31) (he : e < 2 ^ 31) :
    (Faithful n d e → rtTimeout (reported n d e) = max 0 ((d : Int) - e)) ∧
      (¬ Faithful n d e →
        rtTimeout (reported n d e) = 0 ∧ e < d ∨ rtTimeout (reported n d e) < 0) := by
  have hmod : ∀ x : Int, x ≠ millisecondsMax → rtTimeout x = x.bmod (2 ^ 32) :=
    fun x hx => if_neg hx
  refine ⟨fun h => ?_, fun h => ?_⟩
  · have hleft := remain_faithful hd he h
    rw [hmod _ (right_of_faithful hd he h).finite, hleft]
    exact Int.bmod_eq_of_le (by omega) (by omega)
  · rcases not_faithful h with hmark | ⟨hexpired, hnow⟩ | ⟨hexpired, hnow⟩
    · right
      rw [remain_marker n hd e hmark]
      decide
    · left
      rw [remain_early n hd e hexpired hnow]
      exact ⟨by decide, by omega⟩
    · right
      have hlate := remain_late n hd he hexpired hnow
      have hfinite : reported n d e ≠ millisecondsMax := by
        rw [hlate, millisecondsMax]
        omega
      have hround : (2 ^ 32 + (d : Int) - e).bmod (2 ^ 32) = ((d : Int) - e).bmod (2 ^ 32) := by
        rw [Int.add_sub_assoc]
        exact Int.add_bmod_left _ _
      -- what the kernel gets is `d - e`, which is negative
      rw [hmod _ hfinite, hlate, hround, Int.bmod_eq_of_le (by omega) (by omega)]
      omega

end Timeout

end RtCharger.Os
