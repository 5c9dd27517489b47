import RtCharger.Lib.StepSystem
import RtCharger.Lib.WrappingClock
import Mathlib.Logic.Function.Basic
import Mathlib.Data.List.Nodup

namespace RtCharger.Kernel.Timers

open StepSystem WrappingClock

/-!
# The kernel's timers

The list of soft timers of `timer.c` (`RT_TIMER_SKIP_LIST_LEVEL` is 1): `rt_timer_start` sorts a
timer into it, and the timer thread takes the first timers out in `rt_soft_timer_check` and calls
their functions, during which anybody may start and stop timers.  Times are compared as they are
shown by a 32-bit tick counter, which wraps around.

* `rtTimerStart`, `rtTimerStop`, `expire`, `finish` — the functions of the source, and the two
  halves of a round of `rt_soft_timer_check`;
* `InTime` — no timer waits so long that the tick counter cannot tell;
* `Inv`, `Inv.step` — the list is sorted by the times that are meant, and first started first;
* `timers_in_order` — what that says about the timers that expire.
-/

/-- `rt_tick_t`. -/
abbrev RtTick : Type := BitVec 32

/-- `RT_TICK_MAX / 2`. -/
def rtTickMaxHalf : RtTick := 0x7fffffff#32

/-- `struct rt_timer`. -/
structure RtTimer where
  initTick : RtTick
  timeoutTick : RtTick
  periodic : Bool
  activated : Bool
deriving DecidableEq, Repr

/-- A timer whose function was called: when it was due, and when that was. -/
structure Expired (Id : Type) where
  timer : Id
  due : Nat
  time : Nat
deriving DecidableEq, Repr

/-- The timers, and what has happened. -/
structure State (Id : Type) where
  /-- The ticks since the start; `rt_tick_get` returns what the counter shows. -/
  now : Nat
  timer : Id → RtTimer
  /-- `rt_soft_timer_list`. -/
  timerList : List Id
  /-- `list`, to which a timer belongs while its function runs. -/
  list : List Id
  /-- The timer whose function runs. -/
  firing : Option Id
  /-- When a timer is due. -/
  due : Id → Nat
  /-- How many timers had been started before this one. -/
  serial : Id → Nat
  starts : Nat
  expired : List (Expired Id)

/-- The timers as `rt_timer_init` leaves them. -/
def initial {Id : Type} (time : Id → RtTick) (periodic : Id → Bool) : State Id where
  now := 0
  timer := fun i => ⟨time i, 0#32, periodic i, false⟩
  timerList := []
  list := []
  firing := none
  due := fun _ => 0
  serial := fun _ => 0
  starts := 0
  expired := []

/-- The actions; those in the middle may come from any thread, also from the function of the timer
    that fires. -/
inductive Action (Id : Type) where
  | tick
  | start (i : Id)
  | stop (i : Id)
  /-- `rt_timer_control` with `RT_TIMER_CTRL_SET_TIME`. -/
  | setTime (i : Id) (time : RtTick)
  /-- The first timer of the list is due, and its function is called. -/
  | expire
  /-- The function returns. -/
  | finish
deriving DecidableEq, Repr

section Functions

variable {Id : Type} [DecidableEq Id]

/-- `rt_tick_get`. -/
def State.rtTickGet (s : State Id) : RtTick := shown 32 s.now

/-- The loop of `rt_timer_start`: behind the timers that time out earlier or at the same tick. -/
def insertTimer (timeoutTick : Id → RtTick) (i : Id) : List Id → List Id
  | []      => [i]
  | t :: ts =>
    if timeoutTick t - timeoutTick i = 0#32 then t :: insertTimer timeoutTick i ts
    else if timeoutTick t - timeoutTick i < rtTickMaxHalf then i :: t :: ts
    else t :: insertTimer timeoutTick i ts

/-- `_rt_timer_remove`: a timer is in one list at most. -/
def State.remove (s : State Id) (i : Id) : State Id :=
  { s with timerList := s.timerList.erase i, list := s.list.erase i }

/-- A field of a timer is set. -/
def State.set (s : State Id) (i : Id) (timer : RtTimer) : State Id :=
  { s with timer := Function.update s.timer i timer }

/-- `rt_timer_start`; `none` if the assertion fails. -/
def rtTimerStart (s : State Id) (i : Id) : Option (State Id) :=
  let s := s.remove i
  let timer := s.timer i
  if timer.initTick < rtTickMaxHalf then
    let s := s.set i
      { timer with timeoutTick := s.rtTickGet + timer.initTick, activated := true }
    some { s with
      timerList := insertTimer (fun t => (s.timer t).timeoutTick) i s.timerList
      due := Function.update s.due i (s.now + timer.initTick.toNat)
      serial := Function.update s.serial i s.starts
      starts := s.starts + 1 }
  else none

/-- `rt_timer_stop`. -/
def rtTimerStop (s : State Id) (i : Id) : State Id :=
  if (s.timer i).activated then (s.remove i).set i { s.timer i with activated := false } else s

/-- `rt_soft_timer_check` up to the call of the function of the first timer; `none` if the list is
    empty or the timer is not due, where the loop ends. -/
def expire (s : State Id) : Option (State Id) :=
  match s.firing, s.timerList with
  | none, t :: _ =>
    if s.rtTickGet - (s.timer t).timeoutTick < rtTickMaxHalf then
      let timer := s.timer t
      let s := (s.remove t).set t
        { timer with activated := if timer.periodic then timer.activated else false }
      some { s with
        list := t :: s.list
        firing := some t
        expired := s.expired ++ [(⟨t, s.due t, s.now⟩ : Expired Id)] }
    else none
  | _, _ => none

/-- The rest of the round: a periodic timer that nobody has stopped or started is started again. -/
def finish (s : State Id) : Option (State Id) :=
  match s.firing with
  | none   => none
  | some t =>
    let s := { s with firing := none }
    if s.list.isEmpty then some s
    else
      let s := { s with list := s.list.erase t }
      if (s.timer t).periodic ∧ (s.timer t).activated then
        rtTimerStart (s.set t { s.timer t with activated := false }) t
      else some s

/-- One action. -/
def step (s : State Id) : Action Id → Option (State Id)
  | .tick           => some { s with now := s.now + 1 }
  | .start i        => rtTimerStart s i
  | .stop i         => some (rtTimerStop s i)
  | .setTime i time => some (s.set i { s.timer i with initTick := time })
  | .expire         => expire s
  | .finish         => finish s

end Functions

/-! ### Times and what the counter shows of them -/

/-- The loop of `rt_timer_start` stops at the timers that are due later. -/
theorem later_iff {d e : Nat} (hahead : d ≤ e + (2 ^ 31 - 2)) (hbehind : e ≤ d + (2 ^ 31 + 1)) :
    (shown 32 d - shown 32 e ≠ 0#32 ∧ shown 32 d - shown 32 e < rtTickMaxHalf) ↔ e < d := by
  have hzero : shown 32 d - shown 32 e = 0#32 ↔ (shown 32 d - shown 32 e).toNat = 0 :=
    ⟨fun h => by rw [h]; rfl, fun h => BitVec.eq_of_toNat_eq h⟩
  have hhalf : shown 32 d - shown 32 e < rtTickMaxHalf
      ↔ (shown 32 d - shown 32 e).toNat < 2 ^ 31 - 1 := Iff.rfl
  rw [Ne, hzero, hhalf]
  rcases Nat.lt_or_ge d e with hlt | hle
  · rw [sub_of_lt hlt (by omega)]
    omega
  · rw [sub_of_le hle (by omega)]
    omega

/-- A timer is due when the counter shows it. -/
theorem due_iff {now d : Nat} (hahead : d ≤ now + (2 ^ 31 - 2)) (hlate : now ≤ d + (2 ^ 31 - 2)) :
    shown 32 now - shown 32 d < rtTickMaxHalf ↔ d ≤ now := by
  have hhalf : shown 32 now - shown 32 d < rtTickMaxHalf
      ↔ (shown 32 now - shown 32 d).toNat < 2 ^ 31 - 1 := Iff.rfl
  rw [hhalf]
  rcases Nat.lt_or_ge now d with hlt | hle
  · rw [sub_of_lt hlt (by omega)]
    omega
  · rw [sub_of_le hle (by omega)]
    omega

/-! ### The order of the list -/

variable {Id : Type}

/-- Timer `i` is due before timer `j`, or was started before it with the same time. -/
def Before (due serial : Id → Nat) (i j : Id) : Prop :=
  due i < due j ∨ due i = due j ∧ serial i < serial j

/-- What the list means at time `now`. -/
structure Sorted (now : Nat) (timer : Id → RtTimer) (due serial : Id → Nat) (starts : Nat)
    (l : List Id) : Prop where
  nodup : l.Nodup
  shown : ∀ i ∈ l, (timer i).timeoutTick = shown 32 (due i)
  ahead : ∀ i ∈ l, due i ≤ now + (2 ^ 31 - 2)
  late : ∀ i ∈ l, now ≤ due i + (2 ^ 31 - 2)
  order : l.Pairwise (Before due serial)
  serial : ∀ i ∈ l, serial i < starts

/-- The list of the timers. -/
def State.Sorted (s : State Id) : Prop :=
  Timers.Sorted s.now s.timer s.due s.serial s.starts s.timerList

/-- Some of the timers, in the same order. -/
theorem Sorted.sublist {now starts : Nat} {timer : Id → RtTimer} {due serial : Id → Nat}
    {l l' : List Id} (h : Sorted now timer due serial starts l) (hl : l'.Sublist l) :
    Sorted now timer due serial starts l' :=
  ⟨h.nodup.sublist hl, fun i hi => h.shown i (hl.mem hi), fun i hi => h.ahead i (hl.mem hi),
    fun i hi => h.late i (hl.mem hi), h.order.sublist hl, fun i hi => h.serial i (hl.mem hi)⟩

/-- Only what is known of the timers in the list matters. -/
theorem Sorted.congr {now starts starts' : Nat} {timer timer' : Id → RtTimer}
    {due due' serial serial' : Id → Nat} {l : List Id} (h : Sorted now timer due serial starts l)
    (htimer : ∀ i ∈ l, (timer' i).timeoutTick = (timer i).timeoutTick)
    (hdue : ∀ i ∈ l, due' i = due i) (hserial : ∀ i ∈ l, serial' i = serial i)
    (hstarts : starts ≤ starts') : Sorted now timer' due' serial' starts' l := by
  refine ⟨h.nodup, fun i hi => ?_, fun i hi => ?_, fun i hi => ?_, ?_, fun i hi => ?_⟩
  · rw [htimer i hi, hdue i hi]
    exact h.shown i hi
  · rw [hdue i hi]
    exact h.ahead i hi
  · rw [hdue i hi]
    exact h.late i hi
  · refine h.order.imp_of_mem fun {i j} hi hj hij => ?_
    rw [Before, hdue i hi, hdue j hj, hserial i hi, hserial j hj]
    exact hij
  · rw [hserial i hi]
    exact Nat.lt_of_lt_of_le (h.serial i hi) hstarts

section Insert

variable {timeoutTick : Id → RtTick} {due : Id → Nat} {i : Id} {l : List Id}

variable (timeoutTick) in
/-- Where `insertTimer` puts a timer: behind those that are not due later. -/
theorem insertTimer_split
    (hcmp : ∀ t ∈ l, (timeoutTick t - timeoutTick i ≠ 0#32 ∧
      timeoutTick t - timeoutTick i < rtTickMaxHalf) ↔ due i < due t) :
    ∃ before after, l = before ++ after ∧ insertTimer timeoutTick i l = before ++ i :: after ∧
      (∀ t ∈ before, due t ≤ due i) ∧ ∀ t, after.head? = some t → due i < due t := by
  induction l with
  | nil => exact ⟨[], [], rfl, rfl, nofun, nofun⟩
  | cons t l ih =>
    obtain ⟨before, after, hl, hins, hbefore, hafter⟩ :=
      ih fun u hu => hcmp u (List.mem_cons_of_mem _ hu)
    have ht := hcmp t List.mem_cons_self
    by_cases hlt : due i < due t
    · obtain ⟨hne, hhalf⟩ := ht.mpr hlt
      refine ⟨[], t :: l, rfl, ?_, nofun, fun u hu => ?_⟩
      · rw [insertTimer, if_neg hne, if_pos hhalf]
        rfl
      · obtain rfl : t = u := by simpa using hu
        exact hlt
    · refine ⟨t :: before, after, by rw [hl, List.cons_append], ?_, ?_, hafter⟩
      · rw [insertTimer, hins]
        split_ifs with hzero hhalf
        · rfl
        · exact absurd (ht.mp ⟨hzero, hhalf⟩) hlt
        · rfl
      · rintro u (_ | ⟨_, hu⟩)
        · exact Nat.not_lt.mp hlt
        · exact hbefore u hu

end Insert

/-- **A timer that is started** goes behind the timers that are due before it or at the same time,
    if none of them has waited too long. -/
theorem Sorted.insert {now starts : Nat} {timer : Id → RtTimer} {due serial : Id → Nat}
    {l : List Id} {i : Id} (h : Sorted now timer due serial starts l) (hi : i ∉ l)
    (hserial : serial i = starts) (hshown : (timer i).timeoutTick = WrappingClock.shown 32 (due i))
    (hahead : now ≤ due i ∧ due i ≤ now + (2 ^ 31 - 2))
    (hfits : ∀ j ∈ l, due i ≤ due j + (2 ^ 31 + 1)) :
    Sorted now timer due serial (starts + 1)
      (insertTimer (fun t => (timer t).timeoutTick) i l) ∧
    ∀ j, j ∈ insertTimer (fun t => (timer t).timeoutTick) i l ↔ j = i ∨ j ∈ l := by
  have hcmp : ∀ t ∈ l, ((timer t).timeoutTick - (timer i).timeoutTick ≠ 0#32 ∧
      (timer t).timeoutTick - (timer i).timeoutTick < rtTickMaxHalf) ↔ due i < due t := by
    intro t ht
    have hta := h.ahead t ht
    rw [h.shown t ht, hshown]
    exact later_iff (by omega) (hfits t ht)
  obtain ⟨before, after, hl, hins, hbefore, hafter⟩ :=
    insertTimer_split (fun t => (timer t).timeoutTick) hcmp
  have horder := h.order
  rw [hl, List.pairwise_append] at horder
  obtain ⟨hob, hoa, hcross⟩ := horder
  -- the timers behind the first one that is due later are due later too
  have hlater : ∀ t ∈ after, due i < due t := by
    intro t ht
    cases after with
    | nil => cases ht
    | cons u after =>
      have hu := hafter u rfl
      rcases List.mem_cons.mp ht with rfl | ht
      · exact hu
      · rcases (List.pairwise_cons.mp hoa).1 t ht with hlt | ⟨heq, -⟩ <;> omega
  have hmem : ∀ j, j ∈ before ++ i :: after ↔ j = i ∨ j ∈ l := by
    intro j
    rw [hl]
    simp only [List.mem_append, List.mem_cons]
    tauto
  rw [hins]
  refine ⟨⟨?_, fun j hj => ?_, fun j hj => ?_, fun j hj => ?_, ?_, fun j hj => ?_⟩, hmem⟩
  · have hnodup := h.nodup
    rw [hl] at hnodup hi
    rw [List.nodup_middle, List.nodup_cons]
    exact ⟨hi, hnodup⟩
  · rcases (hmem j).mp hj with rfl | hj
    · exact hshown
    · exact h.shown j hj
  · rcases (hmem j).mp hj with rfl | hj
    · exact hahead.2
    · exact h.ahead j hj
  · rcases (hmem j).mp hj with rfl | hj
    · omega
    · exact h.late j hj
  · rw [List.pairwise_append, List.pairwise_cons]
    refine ⟨hob, ⟨fun t ht => .inl (hlater t ht), hoa⟩, fun t ht u hu => ?_⟩
    rcases List.mem_cons.mp hu with rfl | hu
    · -- with the same time, the timer that was started before stays in front
      have hle := hbefore t ht
      have hser := h.serial t (by rw [hl]; exact List.mem_append_left _ ht)
      rcases Nat.lt_or_eq_of_le hle with hlt | heq
      · exact .inl hlt
      · exact .inr ⟨heq, by omega⟩
    · exact hcross t ht u hu
  · rcases (hmem j).mp hj with rfl | hj
    · omega
    · exact Nat.lt_succ_of_lt (h.serial j hj)

/-! ### The invariant -/

section Steps

variable [DecidableEq Id]

/-- The timer can be started: counted from now it is not due so late that the counter would take it
    for earlier than a timer that is overdue. -/
def Fits (s : State Id) (i : Id) : Prop :=
  ∀ j ∈ s.timerList, s.now + (s.timer i).initTick.toNat ≤ s.due j + (2 ^ 31 + 1)

instance (s : State Id) (i : Id) : Decidable (Fits s i) :=
  inferInstanceAs (Decidable (∀ j ∈ s.timerList, _))

/-- No timer in the list is overdue by half a turn of the counter, and a timer is started only if
    it fits. -/
def InTime (s : State Id) : Action Id → Prop
  | .tick    => ∀ i ∈ s.timerList, s.now + 1 ≤ s.due i + (2 ^ 31 - 2)
  | .start i => Fits s i
  | .finish  =>
    match s.firing with
    | some t => Fits s t
    | none   => True
  | _        => True

instance (s : State Id) : (a : Action Id) → Decidable (InTime s a)
  | .tick        => inferInstanceAs (Decidable (∀ i ∈ s.timerList, _))
  | .start i     => inferInstanceAs (Decidable (Fits s i))
  | .finish      =>
    match h : s.firing with
    | some t => decidable_of_iff (Fits s t) (by simp [InTime, h])
    | none   => isTrue (by simp [InTime, h])
  | .stop _      => isTrue trivial
  | .setTime _ _ => isTrue trivial
  | .expire      => isTrue trivial

/-- The invariant. -/
structure Inv (s : State Id) : Prop where
  sorted : s.Sorted
  /-- The list of `rt_soft_timer_check` has at most the timer that fires. -/
  list : s.list = [] ∨ ∃ t, s.firing = some t ∧ s.list = [t] ∧ t ∉ s.timerList
  /-- A timer that is activated waits, or is a periodic one that fires. -/
  active : ∀ i, (s.timer i).activated = true
    ↔ i ∈ s.timerList ∨ i ∈ s.list ∧ (s.timer i).periodic = true
  expired : ∀ e ∈ s.expired, e.due ≤ e.time

variable {s s' : State Id}

/-- What a start does. -/
structure Started (s : State Id) (i : Id) (s' : State Id) : Prop where
  sorted : s'.Sorted
  mem : ∀ j, j ∈ s'.timerList ↔ j = i ∨ j ∈ s.timerList
  list : s'.list = s.list.erase i
  firing : s'.firing = s.firing
  expired : s'.expired = s.expired
  active : ∀ j, (s'.timer j).activated = if j = i then true else (s.timer j).activated
  periodic : ∀ j, (s'.timer j).periodic = (s.timer j).periodic

/-- A start that succeeds. -/
theorem rtTimerStart_spec {i : Id} (h : s.Sorted) (hfits : Fits s i)
    (hstart : rtTimerStart s i = some s') : Started s i s' := by
  unfold rtTimerStart at hstart
  simp only [Option.ite_none_right_eq_some, Option.some.injEq] at hstart
  obtain ⟨hinit, rfl⟩ := hstart
  have hlt : (s.timer i).initTick.toNat < 2 ^ 31 - 1 := hinit
  have hnot : i ∉ s.timerList.erase i := h.nodup.not_mem_erase
  have hne : ∀ j ∈ s.timerList.erase i, j ≠ i := fun j hj heq => hnot (heq ▸ hj)
  -- the others, with what is recorded for this one
  have hbase : Sorted s.now
      (Function.update s.timer i { s.timer i with
        timeoutTick := shown 32 s.now + (s.timer i).initTick, activated := true })
      (Function.update s.due i (s.now + (s.timer i).initTick.toNat))
      (Function.update s.serial i s.starts) s.starts (s.timerList.erase i) := by
    refine (h.sublist List.erase_sublist).congr (fun j hj => ?_) (fun j hj => ?_) (fun j hj => ?_)
      le_rfl
    all_goals rw [Function.update_of_ne (hne j hj)]
  have hshown : shown 32 s.now + (s.timer i).initTick
      = shown 32 (s.now + (s.timer i).initTick.toNat) := by
    apply BitVec.eq_of_toNat_eq
    simp [shown, BitVec.toNat_add]
  obtain ⟨hsorted, hmem⟩ := hbase.insert hnot (by simp) (by simpa using hshown)
    (by simp only [Function.update_self]; omega) (fun j hj => by
      have hj' := hfits j (List.mem_of_mem_erase hj)
      rw [Function.update_self, Function.update_of_ne (hne j hj)]
      exact hj')
  refine ⟨hsorted, fun j => ?_, rfl, rfl, rfl, fun j => ?_, fun j => ?_⟩
  · refine (hmem j).trans ?_
    by_cases hji : j = i
    · simp [hji]
    · simp [hji, List.mem_erase_of_ne hji]
  · by_cases hji : j = i
    · subst hji
      simp [State.set]
    · simp [State.set, State.remove, hji]
  · by_cases hji : j = i
    · subst hji
      simp [State.set, State.remove]
    · simp [State.set, State.remove, hji]

/-- A timer that is started is in no other list. -/
theorem Inv.start (h : Inv s) {i : Id} (hfits : Fits s i) (hstart : rtTimerStart s i = some s') :
    Inv s' := by
  obtain ⟨hsorted, hmem, hlist, hfiring, hexpired, hactive, hperiodic⟩ :=
    rtTimerStart_spec h.sorted hfits hstart
  refine ⟨hsorted, ?_, fun j => ?_, by rw [hexpired]; exact h.expired⟩
  · rcases h.list with hnil | ⟨t, hfire, ht, hnot⟩
    · exact .inl (by rw [hlist, hnil, List.erase_nil])
    · by_cases hti : t = i
      · subst hti
        exact .inl (by rw [hlist, ht]; simp)
      · refine .inr ⟨t, by rw [hfiring, hfire], ?_, ?_⟩
        · rw [hlist, ht, List.erase_of_not_mem (by simpa using Ne.symm hti)]
        · rw [hmem t]
          exact not_or.mpr ⟨hti, hnot⟩
  · rw [hactive j, hmem j, hlist, hperiodic j]
    by_cases hji : j = i
    · subst hji
      simp
    · rw [if_neg hji, List.mem_erase_of_ne hji, h.active j]
      simp [hji]

/-- A timer that is stopped leaves its list. -/
theorem Inv.stop (h : Inv s) (i : Id) : Inv (rtTimerStop s i) := by
  unfold rtTimerStop
  by_cases hact : (s.timer i).activated = true
  · rw [if_pos hact]
    have hnot : i ∉ s.timerList.erase i := h.sorted.nodup.not_mem_erase
    refine ⟨?_, ?_, fun j => ?_, h.expired⟩
    · refine (h.sorted.sublist List.erase_sublist).congr (fun j hj => ?_) (fun _ _ => rfl)
        (fun _ _ => rfl) le_rfl
      show (Function.update s.timer i _ j).timeoutTick = _
      rw [Function.update_of_ne fun heq => hnot (by rwa [heq] at hj)]
    · rcases h.list with hnil | ⟨t, hfire, ht, ht'⟩
      · exact .inl (by simp [State.set, State.remove, hnil])
      · by_cases hti : t = i
        · subst hti
          exact .inl (by simp [State.set, State.remove, ht])
        · refine .inr ⟨t, hfire, ?_, fun hmem => ht' (List.mem_of_mem_erase hmem)⟩
          show s.list.erase i = [t]
          rw [ht, List.erase_of_not_mem (by simpa using Ne.symm hti)]
    · by_cases hji : j = i
      · subst hji
        have hlist : j ∉ s.list.erase j := by
          rcases h.list with hnil | ⟨t, hfire, ht, ht'⟩
          · simp [hnil]
          · rw [ht]
            exact (List.nodup_singleton t).not_mem_erase
        simp [State.set, State.remove, hnot, hlist]
      · simp only [State.set, State.remove, Function.update_of_ne hji, List.mem_erase_of_ne hji]
        exact h.active j
  · rw [if_neg hact]
    exact h

/-- What the call of the first timer's function presupposes, and what it does. -/
theorem expire_cases (hexpire : expire s = some s') :
    ∃ t rest, s.firing = none ∧ s.timerList = t :: rest ∧
      s.rtTickGet - (s.timer t).timeoutTick < rtTickMaxHalf ∧
      s' = { (s.remove t).set t { s.timer t with
          activated := if (s.timer t).periodic then (s.timer t).activated else false } with
        list := t :: s.list.erase t
        firing := some t
        expired := s.expired ++ [(⟨t, s.due t, s.now⟩ : Expired Id)] } := by
  unfold expire at hexpire
  split at hexpire
  · rename_i t rest hfiring hlist
    simp only [Option.ite_none_right_eq_some, Option.some.injEq] at hexpire
    obtain ⟨hdue, rfl⟩ := hexpire
    exact ⟨t, rest, hfiring, hlist, hdue, rfl⟩
  · cases hexpire

omit [DecidableEq Id] in
/-- Nothing waits to be started again while no timer fires. -/
theorem Inv.list_nil (h : Inv s) (hfiring : s.firing = none) : s.list = [] := by
  rcases h.list with hnil | ⟨t, hfire, -⟩
  · exact hnil
  · rw [hfiring] at hfire
    cases hfire

/-- The first timer is due: then it really is. -/
theorem Inv.expire (h : Inv s) (hexpire : Timers.expire s = some s') : Inv s' := by
  obtain ⟨t, rest, hfiring, hlist, hdue, rfl⟩ := expire_cases hexpire
  have ht : t ∈ s.timerList := by rw [hlist]; exact List.mem_cons_self
  have hnot : t ∉ s.timerList.erase t := h.sorted.nodup.not_mem_erase
  have hnil := h.list_nil hfiring
  have hact : (s.timer t).activated = true := (h.active t).mpr (.inl ht)
  rw [h.sorted.shown t ht] at hdue
  have hpassed := (due_iff (h.sorted.ahead t ht) (h.sorted.late t ht)).mp hdue
  refine ⟨?_, .inr ⟨t, rfl, ?_, hnot⟩, fun j => ?_, fun e he => ?_⟩
  · refine (h.sorted.sublist List.erase_sublist).congr (fun j hj => ?_) (fun _ _ => rfl)
      (fun _ _ => rfl) le_rfl
    show (Function.update s.timer t _ j).timeoutTick = _
    rw [Function.update_of_ne fun heq => hnot (by rwa [heq] at hj)]
  · simp [hnil]
  · by_cases hjt : j = t
    · subst hjt
      simp [State.set, State.remove, hnot, hact]
    · simp only [State.set, State.remove, Function.update_of_ne hjt, List.mem_erase_of_ne hjt,
        hnil, List.erase_nil, List.mem_singleton, hjt, false_and, or_false]
      rw [h.active j, hnil]
      simp
  · rcases List.mem_append.mp he with he | he
    · exact h.expired e he
    · obtain rfl := List.mem_singleton.mp he
      exact hpassed

/-- The function returns. -/
theorem Inv.finish (h : Inv s) (hin : InTime s .finish) (hfinish : Timers.finish s = some s') :
    Inv s' := by
  unfold Timers.finish at hfinish
  split at hfinish
  · cases hfinish
  · rename_i t hfiring
    have hfits : Fits s t := by simpa [InTime, hfiring] using hin
    rcases h.list with hnil | ⟨u, hfire, hu, hnot⟩
    · -- the timer was stopped or started again meanwhile
      simp only [hnil, List.isEmpty_nil, if_true, Option.some.injEq] at hfinish
      subst hfinish
      have hact := h.active
      rw [hnil] at hact
      exact ⟨h.sorted, .inl rfl, hact, h.expired⟩
    · obtain rfl : t = u := Option.some.inj (hfiring.symm.trans hfire)
      simp only [hu, List.isEmpty_cons, Bool.false_eq_true, if_false, List.erase_cons_head]
        at hfinish
      have hactive := h.active t
      simp only [hnot, hu, List.mem_singleton, true_and, false_or] at hactive
      split_ifs at hfinish with hrestart
      · -- a periodic timer: it is started like one that was stopped
        have hinv : Inv (({ s with firing := none, list := [] } : State Id).set t
            { s.timer t with activated := false }) := by
          refine ⟨h.sorted.congr (fun j hj => ?_) (fun _ _ => rfl) (fun _ _ => rfl) le_rfl,
            .inl rfl, fun j => ?_, h.expired⟩
          · show (Function.update s.timer t _ j).timeoutTick = _
            rw [Function.update_of_ne fun heq => hnot (by rwa [heq] at hj)]
          · by_cases hjt : j = t
            · subst hjt
              simp [State.set, hnot]
            · have hj := h.active j
              simp only [hu, List.mem_singleton, hjt, false_and, or_false] at hj
              simp [State.set, hjt, hj]
        have hfits' : Fits (({ s with firing := none, list := [] } : State Id).set t
            { s.timer t with activated := false }) t := by
          intro j hj
          simpa [State.set] using hfits j hj
        exact hinv.start hfits' hfinish
      · -- a timer for one time: it was deactivated before its function ran
        simp only [Option.some.injEq] at hfinish
        subst hfinish
        refine ⟨h.sorted, .inl rfl, fun j => ?_, h.expired⟩
        by_cases hjt : j = t
        · subst hjt
          have hper : (s.timer j).periodic ≠ true := fun hper =>
            hrestart ⟨hper, hactive.mpr hper⟩
          have hidle : (s.timer j).activated ≠ true := fun hact => hper (hactive.mp hact)
          simp [hnot, hidle]
        · have hj := h.active j
          simp only [hu, List.mem_singleton, hjt, false_and, or_false] at hj
          simp [hj]

/-- **Every step that is in time keeps the invariant.** -/
theorem Inv.step (h : Inv s) {a : Action Id} (hin : InTime s a)
    (hstep : Timers.step s a = some s') : Inv s' := by
  cases a with
  | tick =>
    obtain rfl := Option.some.inj hstep
    refine ⟨⟨h.sorted.nodup, h.sorted.shown, fun i hi => ?_, hin, h.sorted.order, h.sorted.serial⟩,
      h.list, h.active, h.expired⟩
    have hahead := h.sorted.ahead i hi
    show s.due i ≤ s.now + 1 + _
    omega
  | start i => exact h.start hin hstep
  | stop i =>
    obtain rfl := Option.some.inj hstep
    exact h.stop i
  | setTime i time =>
    obtain rfl := Option.some.inj hstep
    refine ⟨h.sorted.congr (fun j _ => ?_) (fun _ _ => rfl) (fun _ _ => rfl) le_rfl, h.list,
      fun j => ?_, h.expired⟩
    all_goals
      by_cases hji : j = i
      · subst hji
        simp [State.set, h.active j]
      · simp [State.set, hji, h.active j]
  | expire => exact h.expire hstep
  | finish => exact h.finish hin hstep

omit [DecidableEq Id] in
theorem inv_initial (time : Id → RtTick) (periodic : Id → Bool) : Inv (initial time periodic) :=
  ⟨⟨List.nodup_nil, nofun, nofun, nofun, List.Pairwise.nil, nofun⟩, .inl rfl,
    fun i => by simp [initial], nofun⟩

/-! ### Timers that expire -/

/-- **In order and in time.**  In every run in which no timer is overdue by half a turn of the tick
    counter and none is started so far ahead, however often the counter wraps around: no timer's
    function is called before its time; the one that is called is the one that is due first, and
    among those of the same time the one started first; when the loop of `rt_soft_timer_check`
    ends nothing is due; and a timer is activated if and only if it waits or is a periodic one that
    fires. -/
theorem timers_in_order {time : Id → RtTick} {periodic : Id → Bool} {as : List (Action Id)}
    (h : Runs Timers.step InTime (initial time periodic) as s) :
    (∀ e ∈ s.expired, e.due ≤ e.time) ∧
      (∀ s', Timers.step s .expire = some s' → ∃ t rest, s.timerList = t :: rest ∧
        s'.firing = some t ∧ ∀ u ∈ rest, Before s.due s.serial t u) ∧
      (s.firing = none → Timers.step s .expire = none → ∀ i ∈ s.timerList, s.now < s.due i) ∧
      ∀ i, (s.timer i).activated = true
        ↔ i ∈ s.timerList ∨ i ∈ s.list ∧ (s.timer i).periodic = true := by
  have hinv : Inv s := h.invariant Inv (fun _ _ _ hs hin hstep => hs.step hin hstep)
    (inv_initial time periodic)
  refine ⟨hinv.expired, fun s' hexpire => ?_, fun hfiring hnone i hi => ?_, hinv.active⟩
  · obtain ⟨t, rest, -, hlist, -, rfl⟩ := expire_cases hexpire
    have horder := hinv.sorted.order
    rw [hlist] at horder
    exact ⟨t, rest, hlist, rfl, (List.pairwise_cons.mp horder).1⟩
  · cases hlist : s.timerList with
    | nil => rw [hlist] at hi; cases hi
    | cons t rest =>
      have ht : t ∈ s.timerList := by rw [hlist]; exact List.mem_cons_self
      have hdue := due_iff (hinv.sorted.ahead t ht) (hinv.sorted.late t ht)
      have hlater : s.now < s.due t := by
        by_contra hle
        have hshown := hdue.mpr (by omega)
        rw [← hinv.sorted.shown t ht] at hshown
        simp [Timers.step, Timers.expire, hfiring, hlist, State.rtTickGet, hshown] at hnone
      have horder := hinv.sorted.order
      rw [hlist] at hi horder
      rcases List.mem_cons.mp hi with rfl | hi
      · exact hlater
      · rcases (List.pairwise_cons.mp horder).1 i hi with hlt | ⟨heq, -⟩ <;> omega

/-- Two timers of different times, one of them started again by its own function. -/
theorem timers_in_order_example :
    let s := (checkedRun Timers.step InTime (initial (fun i : Fin 2 => if i = 0 then 3 else 1)
      fun _ => false)
      [.start 0, .start 1, .tick, .expire, .start 1, .finish, .tick, .tick, .expire]).get
        (by decide)
    ∀ e ∈ s.expired, e.due ≤ e.time :=
  (timers_in_order (runs_checked_get (by decide))).1

end Steps

end RtCharger.Kernel.Timers
