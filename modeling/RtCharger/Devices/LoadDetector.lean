import RtCharger.Lib.RingBuffer
import Mathlib.Algebra.Ring.Nat

namespace RtCharger.Devices

open RingBuffer

/-!
# The load detector

`LoadDetector` takes the time of every rising edge of a pin, and its timer counts those of the
last 200 ms.  Times are read from the tick counter, which has 32 bits and wraps around, and are
stored and subtracted with 64 bits: once the counter has wrapped, the edges before it look as if
they were in the future, and are counted until ten newer ones have taken their places
(`detected_iff`).

* `onEdge`, `onRun` — the two callbacks;
* `LooksRecent` — an old edge that is counted all the same;
* `detected_before_wrap` — until the counter wraps there is none.
-/

/-- `kPluseFreqHz`. -/
def kPluseFreqHz : Nat := 50

/-- `kDetectWndMs`. -/
def kDetectWndMs : Nat := 200

/-- `kValidRatioPc`. -/
def kValidRatioPc : Nat := 60

/-- `kArraySize`. -/
def kArraySize : Nat := kDetectWndMs / (1000 / kPluseFreqHz)

/-- `rt_tick_get()` at the time `t`, in milliseconds since the start. -/
def rtTickGet (t : Nat) : BitVec 32 := BitVec.ofNat 32 t

/-- `ticks` with `rear` and `fulled`, whose cells have 64 bits, and `state`. -/
structure LoadDetector where
  ticks : Ring Int kArraySize
  state : Option Bool

namespace LoadDetector

/-- The interrupt of a rising edge at the time `t`. -/
def onEdge (s : LoadDetector) (t : Nat) : LoadDetector :=
  { s with ticks := s.ticks.push (rtTickGet t).toNat }

/-- `timer.onRun` at the time `t`. -/
def onRun (s : LoadDetector) (t : Nat) : LoadDetector :=
  let now := rtTickGet t
  -- both sides of the subtraction are converted to 64 bits
  let count := s.ticks.stored.countP fun tick => (now.toNat : Int) - tick < kDetectWndMs
  { s with state := some (decide (kArraySize * kValidRatioPc / 100 ≤ count)) }

/-- What an edge at the time `t` writes. -/
def stamp (t : Nat) : Int := (rtTickGet t).toNat

/-- What happens to a detector, and when. -/
inductive Event where
  | edge (t : Nat)
  | tick (t : Nat)
deriving DecidableEq, Repr

/-- When it happens. -/
def Event.time : Event → Nat
  | .edge t => t
  | .tick t => t

/-- One event. -/
def step (s : LoadDetector) : Event → LoadDetector
  | .edge t => s.onEdge t
  | .tick t => s.onRun t

/-- A new detector, whose cells are not initialised. -/
def init (cells : List Int) (h : cells.length = kArraySize) : LoadDetector :=
  ⟨⟨cells, false, 0, h, by decide⟩, none⟩

/-- The times of the edges among the events. -/
def edges (events : List Event) : List Nat :=
  events.filterMap fun e => match e with
    | .edge t => some t
    | .tick _ => none

/-- The edge at `e` is in the window `(t - kDetectWndMs, t]`. -/
def InWindow (t e : Nat) : Prop := e ≤ t ∧ t < e + kDetectWndMs

/-- The edge at `e` is older, but its stamp is above the counter, which has wrapped since, or the
    counter has come round to it again. -/
def LooksRecent (t e : Nat) : Prop :=
  e + kDetectWndMs ≤ t ∧ (t % 2 ^ 32 < e % 2 ^ 32 ∨ (t - e) % 2 ^ 32 < kDetectWndMs)

instance (t e : Nat) : Decidable (InWindow t e) := inferInstanceAs (Decidable (_ ∧ _))

instance (t e : Nat) : Decidable (LooksRecent t e) := inferInstanceAs (Decidable (_ ∧ _))

/-- **What the timer counts** are the edges in the window and those that look so. -/
theorem counted_iff {t e : Nat} (h : e ≤ t) :
    ((rtTickGet t).toNat : Int) - (rtTickGet e).toNat < kDetectWndMs ↔
      InWindow t e ∨ LooksRecent t e := by
  simp only [rtTickGet, BitVec.toNat_ofNat, InWindow, LooksRecent, kDetectWndMs]
  omega

/-- The edges that are counted among those that are left. -/
def counted (t : Nat) (es : List Nat) : Nat :=
  (lastN kArraySize es).countP fun e => decide (InWindow t e ∨ LooksRecent t e)

/-- The edges that are counted although they are not in the window. -/
def stale (t : Nat) (es : List Nat) : Nat :=
  (lastN kArraySize es).countP fun e => decide (LooksRecent t e)

/-- No edge looks recent before the counter wraps. -/
theorem not_looksRecent {t e : Nat} (h : t < 2 ^ 32) : ¬ LooksRecent t e := by
  rintro ⟨hle, hlt | hlt⟩
  · rw [Nat.mod_eq_of_lt h, Nat.mod_eq_of_lt (by omega)] at hlt
    omega
  · rw [Nat.mod_eq_of_lt (by omega)] at hlt
    omega

theorem counted_eq (t : Nat) (es : List Nat) :
    counted t es
      = (lastN kArraySize es).countP (fun e => decide (InWindow t e)) + stale t es := by
  unfold counted stale
  induction lastN kArraySize es with
  | nil => rfl
  | cons e es ih =>
    -- an edge in the window is not old
    have hdisj : InWindow t e → ¬ LooksRecent t e := fun hin hold => by
      have hlt := hin.2
      have hge := hold.1
      omega
    rw [List.countP_cons, List.countP_cons, List.countP_cons, ih]
    by_cases hin : InWindow t e
    · simp only [hin, hdisj hin, true_or, decide_true, decide_false, if_true, Bool.false_eq_true,
        if_false]
      omega
    · simp only [hin, false_or, decide_false, Bool.false_eq_true, if_false]
      omega

/-! ### Every run -/

/-- A run writes the stamps of its edges. -/
theorem ticks_foldl (s : LoadDetector) (events : List Event) :
    (events.foldl step s).ticks
      = ((edges events).map fun e => ((rtTickGet e).toNat : Int)).foldl Ring.push s.ticks := by
  induction events generalizing s with
  | nil => rfl
  | cons e events ih =>
    rw [List.foldl_cons, ih]
    cases e <;> rfl

/-- **The buffer** holds the stamps of the last edges. -/
theorem toList_ticks (cells : List Int) (h : cells.length = kArraySize) (events : List Event) :
    (events.foldl step (init cells h)).ticks.toList
      = (lastN kArraySize (edges events)).map fun e => ((rtTickGet e).toNat : Int) := by
  have hempty : (init cells h).ticks.toList = [] := rfl
  rw [ticks_foldl, Ring.toList_pushAll, hempty, List.nil_append, lastN, lastN, List.map_drop,
    List.length_map]

/-- An edge is an event. -/
theorem mem_edges {events : List Event} {e : Nat} (h : e ∈ edges events) : .edge e ∈ events := by
  obtain ⟨a, ha, hae⟩ := List.mem_filterMap.mp h
  cases a with
  | edge e' =>
    cases hae
    exact ha
  | tick _ => cases hae

/-- What the timer assigns. -/
theorem state_onRun (cells : List Int) (h : cells.length = kArraySize) {events : List Event}
    {t : Nat} (hlast : ∀ e ∈ events, e.time ≤ t) :
    ((events.foldl step (init cells h)).onRun t).state
      = some (decide (kArraySize * kValidRatioPc / 100 ≤ counted t (edges events))) := by
  have hcount : (events.foldl step (init cells h)).ticks.stored.countP
        (fun tick => decide (((rtTickGet t).toNat : Int) - tick < kDetectWndMs))
      = counted t (edges events) := by
    rw [(Ring.stored_perm _).countP_eq, toList_ticks, List.countP_map, counted]
    apply List.countP_congr
    intro e he
    have hle : e ≤ t := hlast _ (mem_edges (List.mem_of_mem_drop he))
    rw [Function.comp_apply, decide_eq_true_iff, decide_eq_true_iff]
    exact counted_iff hle
  rw [onRun, hcount]

/-- Once an edge is in the window, all later ones are. -/
theorem inWindow_mono {events : List Event} {t : Nat}
    (hsorted : events.Pairwise fun a b => a.time ≤ b.time) (hlast : ∀ e ∈ events, e.time ≤ t) :
    (edges events).Pairwise fun a b =>
      decide (InWindow t a) = true → decide (InWindow t b) = true := by
  have hedges : (edges events).Pairwise fun a b => a ≤ b := by
    refine hsorted.filterMap _ fun a b hab a' ha b' hb => ?_
    cases a <;> cases ha
    cases b <;> cases hb
    exact hab
  refine hedges.imp_of_mem fun ha hb hab hwindow => ?_
  have hle := hlast _ (mem_edges hb)
  have hlt := (of_decide_eq_true hwindow).2
  exact decide_eq_true ⟨hle, by omega⟩

/-- The edges in the window are counted, up to ten. -/
theorem countP_lastN_of_lt {events : List Event} {t : Nat}
    (hsorted : events.Pairwise fun a b => a.time ≤ b.time) (hlast : ∀ e ∈ events, e.time ≤ t)
    (hfew : (edges events).countP (fun e => decide (InWindow t e)) < kArraySize) :
    (lastN kArraySize (edges events)).countP (fun e => decide (InWindow t e))
      = (edges events).countP fun e => decide (InWindow t e) := by
  have hmono := inWindow_mono hsorted hlast
  have hge := (le_countP_lastN_iff (Nat.le_of_lt hfew) hmono).mpr (Nat.le_refl _)
  have hnot := (le_countP_lastN_iff (Nat.succ_le_of_lt hfew) hmono).not.mpr (Nat.not_succ_le_self _)
  omega

/-- **The detector is right** about the window unless old edges make up six: exactly when six
    edges are in the window, or those that look recent among the last ten do not make them
    six. -/
theorem detected_iff (cells : List Int) (h : cells.length = kArraySize) (events : List Event)
    (t : Nat) (hsorted : events.Pairwise fun a b => a.time ≤ b.time)
    (hlast : ∀ e ∈ events, e.time ≤ t) :
    (((events.foldl step (init cells h)).onRun t).state = some true ↔
        kArraySize * kValidRatioPc / 100 ≤ (edges events).countP fun e => InWindow t e) ↔
      6 ≤ (edges events).countP (fun e => InWindow t e) ∨
        (edges events).countP (fun e => InWindow t e) + stale t (edges events) < 6 := by
  have hsix : kArraySize * kValidRatioPc / 100 = 6 := by decide
  have hten : 6 < kArraySize := by decide
  have hwindow := le_countP_lastN_iff (Nat.le_of_lt hten) (inWindow_mono hsorted hlast)
  have hsum := counted_eq t (edges events)
  rw [state_onRun cells h hlast, hsix, Option.some.injEq, decide_eq_true_iff]
  by_cases hin : 6 ≤ (edges events).countP fun e => decide (InWindow t e)
  · have hcount := hwindow.mpr hin
    omega
  · have hcount := countP_lastN_of_lt hsorted hlast (by omega)
    omega

/-- Six pulses just now are detected. -/
theorem detected_iff_six :
    (((([.edge 10, .edge 30, .edge 50, .edge 70, .edge 90, .edge 110] : List Event).foldl step
          (init (List.replicate 10 0) (by decide))).onRun 200).state = some true ↔
        kArraySize * kValidRatioPc / 100
          ≤ (edges [.edge 10, .edge 30, .edge 50, .edge 70, .edge 90, .edge 110]).countP
            fun e => InWindow 200 e) ↔
      6 ≤ (edges [.edge 10, .edge 30, .edge 50, .edge 70, .edge 90, .edge 110]).countP
          (fun e => InWindow 200 e) ∨
        (edges [.edge 10, .edge 30, .edge 50, .edge 70, .edge 90, .edge 110]).countP
            (fun e => InWindow 200 e)
          + stale 200 (edges [.edge 10, .edge 30, .edge 50, .edge 70, .edge 90, .edge 110]) < 6 :=
  detected_iff (List.replicate 10 0) (by decide)
    [.edge 10, .edge 30, .edge 50, .edge 70, .edge 90, .edge 110] 200 (by decide) (by decide)

/-- Before the counter wraps the detector is right. -/
theorem detected_before_wrap (cells : List Int) (h : cells.length = kArraySize)
    {events : List Event} {t : Nat} (hsorted : events.Pairwise fun a b => a.time ≤ b.time)
    (hlast : ∀ e ∈ events, e.time ≤ t) (ht : t < 2 ^ 32) :
    ((events.foldl step (init cells h)).onRun t).state = some true ↔
      6 ≤ (edges events).countP fun e => InWindow t e := by
  have hstale : stale t (edges events) = 0 :=
    List.countP_eq_zero.mpr fun e _ he => not_looksRecent ht (of_decide_eq_true he)
  have hwindow :=
    le_countP_lastN_iff (show 6 ≤ kArraySize by decide) (inWindow_mono hsorted hlast)
  rw [state_onRun cells h hlast, Option.some.injEq, decide_eq_true_iff, counted_eq, hstale]
  exact hwindow

/-- Six pulses that ended a second ago, just before the counter wrapped, are detected too. -/
theorem detected_after_wrap :
    ((([.edge 4294967180, .edge 4294967200, .edge 4294967220, .edge 4294967240,
          .edge 4294967260, .edge 4294967280] : List Event).foldl step
        (init (List.replicate 10 0) (by decide))).onRun 4294968300).state = some true ∧
      (edges [.edge 4294967180, .edge 4294967200, .edge 4294967220, .edge 4294967240,
          .edge 4294967260, .edge 4294967280]).countP (fun e => InWindow 4294968300 e) = 0 := by
  decide

/-! ### The buffer and the edges -/

theorem wrote_ticks (cells : List Int) (h : cells.length = kArraySize) (events : List Event) :
    (events.foldl step (init cells h)).ticks.Wrote ((edges events).map stamp) := by
  have hempty : (init cells h).ticks.Wrote [] := Ring.Wrote.nil rfl rfl
  have hwrote := hempty.pushAll ((edges events).map stamp)
  rw [List.nil_append] at hwrote
  rw [ticks_foldl]
  exact hwrote

/-- **The buffer after any events**: `rear` is an index, `fulled` tells that there were ten edges,
    the timer finds the stamps of the last ten of them, and each cell that it reads holds the
    stamp of an edge. -/
theorem ticks_after (cells : List Int) (h : cells.length = kArraySize) (events : List Event) :
    let s := events.foldl step (init cells h)
    let n := (edges events).length
    s.ticks.rear = n % kArraySize ∧ s.ticks.rear < kArraySize ∧
      (s.ticks.fulled = true ↔ kArraySize ≤ n) ∧
      s.ticks.stored.length = min n kArraySize ∧
      s.ticks.stored.Perm ((lastN kArraySize (edges events)).map stamp) ∧
      ∀ i < s.ticks.size, ∃ j e, (edges events)[j]? = some e ∧ n ≤ j + kArraySize ∧
        j % kArraySize = i ∧ s.ticks.cells[i]? = some (stamp e) := by
  intro s n
  have hwrote := wrote_ticks cells h events
  have hlength : ((edges events).map stamp).length = n := List.length_map _
  have hperm : s.ticks.stored.Perm ((lastN kArraySize (edges events)).map stamp) := by
    have hlist : s.ticks.toList = (lastN kArraySize (edges events)).map stamp :=
      toList_ticks cells h events
    rw [← hlist]
    exact Ring.stored_perm s.ticks
  have hrear := hwrote.rear
  have hfulled := hwrote.fulled
  rw [hlength] at hrear hfulled
  refine ⟨hrear, s.ticks.rear_lt, hfulled, ?_, hperm, ?_⟩
  · rw [hperm.length_eq, List.length_map, length_lastN]
  · intro i hi
    obtain ⟨j, x, hx, hnear, hmod, hcell⟩ := hwrote.written hi
    obtain ⟨e, he, rfl⟩ := Option.map_eq_some_iff.mp (List.getElem?_map.symm.trans hx)
    rw [hlength] at hnear
    exact ⟨j, e, he, hnear, hmod, hcell⟩

/-- The eleventh edge takes the place of the first one. -/
theorem ticks_after_eleven :
    let events := (List.range 11).map fun k => Event.edge (20 * k)
    let s := events.foldl step (init (List.replicate 10 (-1)) (by decide))
    let n := (edges events).length
    s.ticks.rear = n % kArraySize ∧ s.ticks.rear < kArraySize ∧
      (s.ticks.fulled = true ↔ kArraySize ≤ n) ∧
      s.ticks.stored.length = min n kArraySize ∧
      s.ticks.stored.Perm ((lastN kArraySize (edges events)).map stamp) ∧
      ∀ i < s.ticks.size, ∃ j e, (edges events)[j]? = some e ∧ n ≤ j + kArraySize ∧
        j % kArraySize = i ∧ s.ticks.cells[i]? = some (stamp e) :=
  ticks_after (List.replicate 10 (-1)) (by decide)
    ((List.range 11).map fun k => Event.edge (20 * k))

end LoadDetector

end RtCharger.Devices
