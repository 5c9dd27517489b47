import RtCharger.Devices.LoadDetector
import RtCharger.Lib.StepSystem
import Mathlib.Data.Finset.Card
import Mathlib.Data.List.GetD

namespace RtCharger.Devices.LoadScan

open RingBuffer StepSystem LoadDetector

/-!
# The load scan

The timer callback of `LoadDetector` in its single steps, between which the interrupts of edges
may come.  Each read of a cell sees the last edge that was written to it; but how many cells are
read is found out in two reads, and an interrupt between them may fill the buffer.

* `step` — one step of the callback, or one edge;
* `required` — how many edges the callback has to count;
* `Inv` — what holds at every step;
* `tolerates_iff` — it counts them, unless the buffer was filled between the two reads and fewer
  cells are read than edges are required;
* `leadsTo_onRun` — without interrupts the callback is `onRun`.
-/

/-- Where the timer callback is. -/
inductive Pc where
  | idle
  /-- at `if(!fulled)` -/
  | readFulled
  /-- at `size = rear` -/
  | readRear
  /-- at `now = rt_tick_get()` -/
  | readClock (size : Nat)
  /-- at `i < size` -/
  | scan (size now i count : Nat)
  /-- at the assignment to `state` -/
  | assign (now count : Nat)
deriving DecidableEq, Repr

/-- The detector, its callback, and what has happened. -/
structure State where
  det : LoadDetector
  pc : Pc
  /-- The time of the last event. -/
  time : Nat
  /-- The times of all edges. -/
  edges : List Nat
  /-- How many of them there were when the callback started. -/
  started : Nat
  /-- How many there were when the callback read `rear`, if it did. -/
  rearAt : Option Nat

/-- A new detector, whose cells are not initialised. -/
def init (cells : List Int) (h : cells.length = kArraySize) : State :=
  ⟨LoadDetector.init cells h, .idle, 0, [], 0, none⟩

/-- The interrupt of an edge, the call of the callback, and its next step, at a time. -/
inductive Act where
  | edge (t : Nat)
  | start (t : Nat)
  | next (t : Nat)
deriving DecidableEq, Repr

/-- When it happens. -/
def Act.time : Act → Nat
  | .edge t  => t
  | .start t => t
  | .next t  => t

/-- `now - ticks[i] < kDetectWndMs`. -/
def counts (ticks : Ring Int kArraySize) (now i : Nat) : Bool :=
  decide ((now : Int) - ticks.cells.getD i 0 < kDetectWndMs)

/-- The next step of the callback. -/
def next (s : State) : Option State :=
  match s.pc with
  | .idle => none
  | .readFulled =>
    some { s with pc := if s.det.ticks.fulled then .readClock kArraySize else .readRear }
  | .readRear =>
    some { s with pc := .readClock s.det.ticks.rear, rearAt := some s.edges.length }
  | .readClock size => some { s with pc := .scan size (rtTickGet s.time).toNat 0 0 }
  | .scan size now i count =>
    if i < size then
      some { s with pc := .scan size now (i + 1)
                      (if counts s.det.ticks now i then count + 1 else count) }
    else some { s with pc := .assign now count }
  | .assign _ count =>
    some { s with pc  := .idle
                  det := { s.det with
                    state := some (decide (kArraySize * kValidRatioPc / 100 ≤ count)) } }

/-- One step.  Time goes on, and the tick counter does not wrap. -/
def step (s : State) (a : Act) : Option State :=
  if s.time ≤ a.time ∧ a.time < 2 ^ 32 then
    let s := { s with time := a.time }
    match a with
    | .edge t  => some { s with det := s.det.onEdge t, edges := s.edges ++ [t] }
    | .start _ =>
      if s.pc = .idle then
        some { s with pc := .readFulled, started := s.edges.length, rearAt := none }
      else none
    | .next _  => next s
  else none

/-! ### What is required -/

/-- The numbers of the edges older than the callback that are among the last ten and in the window
    at the time `now`. -/
def requiredEdges (s : State) (now : Nat) : Finset Nat :=
  (Finset.range s.started).filter fun j =>
    s.edges.length ≤ j + kArraySize ∧ InWindow now (s.edges.getD j 0)

/-- How many edges the callback has to count. -/
def required (s : State) (now : Nat) : Nat := (requiredEdges s now).card

/-- **The scan tolerates interrupts**: it has counted the required edges, and does not set `state`
    to false while they are six. -/
structure Tolerates (s : State) (now count : Nat) : Prop where
  counted : required s now ≤ count
  kept : 6 ≤ required s now → ∀ t s', step s (.next t) = some s' → s'.det.state = some true

/-! ### What holds at every step -/

/-- The required edges in the first `i` cells. -/
def requiredBelow (s : State) (now i : Nat) : Finset Nat :=
  (requiredEdges s now).filter fun j => j % kArraySize < i

/-- How the number of cells to read was found. -/
inductive Sized (s : State) : Nat → Prop
  | full : s.rearAt = none → Sized s kArraySize
  | rear {n} : s.rearAt = some n → s.started < kArraySize → s.started ≤ n → n ≤ s.edges.length →
      Sized s (n % kArraySize)

/-- What was counted in the first `i` cells. -/
structure Scanned (s : State) (now i count : Nat) : Prop where
  below : (requiredBelow s now i).card ≤ count
  /-- If the buffer was full when `rear` was read, the cells hold later edges. -/
  all : ∀ n, s.rearAt = some n → kArraySize ≤ n → 0 < required s now → count = i

/-- What the callback knows. -/
def PcInv (s : State) : Prop :=
  match s.pc with
  | .idle                  => True
  | .readFulled            => s.rearAt = none
  | .readRear              => s.started < kArraySize
  | .readClock size        => Sized s size
  | .scan size now i count => Sized s size ∧ i ≤ size ∧ Scanned s now i count
  | .assign now count      => ∃ size, Sized s size ∧ Scanned s now size count

/-- **The invariant.** -/
structure Inv (s : State) : Prop where
  wrote : s.det.ticks.Wrote (s.edges.map fun (e : Nat) => (e : Int))
  sorted : s.edges.Pairwise (· ≤ ·)
  past : ∀ e ∈ s.edges, e ≤ s.time
  older : s.started ≤ s.edges.length
  pcInv : PcInv s

/-! ### Cells and edges -/

variable {s s' : State} {now i count : Nat}

theorem toNat_rtTickGet {t : Nat} (ht : t < 2 ^ 32) : (rtTickGet t).toNat = t := by
  rw [rtTickGet, BitVec.toNat_ofNat, Nat.mod_eq_of_lt ht]

/-- One of the last ten edges is in the cell of its number. -/
theorem Inv.counts_iff (h : Inv s) {j : Nat} (hj : j < s.edges.length)
    (hlast : s.edges.length ≤ j + kArraySize) :
    counts s.det.ticks now (j % kArraySize) = true ↔ now < s.edges.getD j 0 + kDetectWndMs := by
  have hcell : s.det.ticks.cells[j % kArraySize]? = some ((s.edges.getD j 0 : Nat) : Int) := by
    apply h.wrote.cells
    · rw [List.getElem?_map, List.getD_eq_getElem _ _ hj, List.getElem?_eq_getElem hj]
      rfl
    · rw [List.length_map]
      exact hlast
  rw [counts, decide_eq_true_iff, List.getD_eq_getElem?_getD, hcell, Option.getD_some]
  omega

/-- Later edges are in the window too. -/
theorem Inv.getD_mono (h : Inv s) {j j' : Nat} (hle : j ≤ j') (hj' : j' < s.edges.length) :
    s.edges.getD j 0 ≤ s.edges.getD j' 0 := by
  rw [List.getD_eq_getElem _ _ (Nat.lt_of_le_of_lt hle hj'), List.getD_eq_getElem _ _ hj']
  rcases Nat.lt_or_eq_of_le hle with hlt | rfl
  · exact List.pairwise_iff_getElem.mp h.sorted _ _ _ hj' hlt
  · exact Nat.le_refl _

theorem mem_requiredEdges {j : Nat} : j ∈ requiredEdges s now ↔
    j < s.started ∧ s.edges.length ≤ j + kArraySize ∧ InWindow now (s.edges.getD j 0) := by
  rw [requiredEdges, Finset.mem_filter, Finset.mem_range]

/-- A required edge is counted when its cell is read. -/
theorem Inv.counts_of_required (h : Inv s) {j : Nat} (hj : j ∈ requiredEdges s now) :
    counts s.det.ticks now (j % kArraySize) = true := by
  obtain ⟨hlt, hlast, hwindow⟩ := mem_requiredEdges.mp hj
  exact (h.counts_iff (Nat.lt_of_lt_of_le hlt h.older) hlast).mpr hwindow.2

/-- Two required edges are in different cells. -/
theorem Inv.mod_injOn (h : Inv s) {j j' : Nat} (hj : j ∈ requiredEdges s now)
    (hj' : j' ∈ requiredEdges s now) (heq : j % kArraySize = j' % kArraySize) : j = j' := by
  obtain ⟨hlt, hlast, -⟩ := mem_requiredEdges.mp hj
  obtain ⟨hlt', hlast', -⟩ := mem_requiredEdges.mp hj'
  have holder := h.older
  rcases Nat.lt_trichotomy j j' with hless | heq' | hgreater
  · exact absurd heq (mod_ne_of_lt hless (by omega))
  · exact heq'
  · exact absurd heq.symm (mod_ne_of_lt hgreater (by omega))

/-! ### One cell -/

/-- **One cell** adds at most one required edge, and only if it is counted. -/
theorem Inv.card_requiredBelow_succ (h : Inv s) :
    (requiredBelow s now (i + 1)).card
      ≤ (requiredBelow s now i).card + if counts s.det.ticks now i then 1 else 0 := by
  by_cases hex : ∃ j ∈ requiredEdges s now, j % kArraySize = i
  · obtain ⟨j, hj, rfl⟩ := hex
    rw [if_pos (h.counts_of_required hj)]
    have hsub : requiredBelow s now (j % kArraySize + 1)
        ⊆ insert j (requiredBelow s now (j % kArraySize)) := by
      intro j' hj'
      obtain ⟨hmem, hlt⟩ := Finset.mem_filter.mp hj'
      rcases Nat.lt_or_eq_of_le (Nat.le_of_lt_succ hlt) with hbelow | heq
      · exact Finset.mem_insert_of_mem (Finset.mem_filter.mpr ⟨hmem, hbelow⟩)
      · rw [h.mod_injOn hmem hj heq]
        exact Finset.mem_insert_self _ _
    exact Nat.le_trans (Finset.card_le_card hsub) (Finset.card_insert_le _ _)
  · have hsub : requiredBelow s now (i + 1) ⊆ requiredBelow s now i := by
      intro j' hj'
      obtain ⟨hmem, hlt⟩ := Finset.mem_filter.mp hj'
      have hne : j' % kArraySize ≠ i := fun heq => hex ⟨j', hmem, heq⟩
      exact Finset.mem_filter.mpr ⟨hmem, by omega⟩
    exact Nat.le_trans (Finset.card_le_card hsub) (Nat.le_add_right _ _)

/-- The cells in front of `rear` hold later edges than the required ones, which are among the
    first ten, once the buffer is full. -/
theorem Inv.counts_of_filled (h : Inv s) {n : Nat} (hsmall : s.started < kArraySize)
    (hfull : kArraySize ≤ n) (hn : n ≤ s.edges.length) (hi : i < n % kArraySize)
    (hpos : 0 < required s now) : counts s.det.ticks now i = true := by
  obtain ⟨j, hj⟩ := Finset.card_pos.mp hpos
  obtain ⟨hlt, -, hwindow⟩ := mem_requiredEdges.mp hj
  have hten : kArraySize = 10 := rfl
  have hcells : i < kArraySize := Nat.lt_trans hi (Nat.mod_lt _ (by decide))
  -- the last edge that was written to the cell
  obtain ⟨j', hj', hlast, hcell⟩ := exists_last hcells (Nat.le_trans hfull hn)
  have hlater : j ≤ j' := by
    rw [hten] at hsmall hfull hi hlast hcell
    omega
  have hmono := h.getD_mono hlater hj'
  rw [← hcell, h.counts_iff hj' hlast]
  exact Nat.lt_of_lt_of_le hwindow.2 (Nat.add_le_add_right hmono _)

/-- **One round** of the loop. -/
theorem Inv.scanned_succ (h : Inv s) {size : Nat} (hsized : Sized s size) (hi : i < size)
    (hscan : Scanned s now i count) :
    Scanned s now (i + 1) (if counts s.det.ticks now i then count + 1 else count) := by
  constructor
  · have hcard : (requiredBelow s now (i + 1)).card ≤ _ := h.card_requiredBelow_succ
    have hbelow := hscan.below
    split_ifs at hcard ⊢ <;> omega
  · intro n hn hfull hpos
    have hcount := hscan.all n hn hfull hpos
    cases hsized with
    | full hnone =>
      rw [hnone] at hn
      cases hn
    | @rear m hrear hsmall hle hlen =>
      obtain rfl := Option.some.inj (hrear.symm.trans hn)
      rw [if_pos (h.counts_of_filled hsmall hfull hlen hi hpos), hcount]

/-! ### One edge -/

/-- The state after an edge at the time `t`. -/
def afterEdge (s : State) (t : Nat) : State :=
  { s with time := t, det := s.det.onEdge t, edges := s.edges ++ [t] }

/-- One more edge is no more to be counted. -/
theorem requiredEdges_afterEdge (holder : s.started ≤ s.edges.length) (t : Nat) :
    requiredEdges (afterEdge s t) now ⊆ requiredEdges s now := by
  intro j hj
  obtain ⟨hlt, hlast, hwindow⟩ := mem_requiredEdges.mp hj
  have hlen : (afterEdge s t).edges.length = s.edges.length + 1 := by
    rw [afterEdge, List.length_append, List.length_singleton]
  have hget : (afterEdge s t).edges.getD j 0 = s.edges.getD j 0 :=
    List.getD_append _ _ _ _ (Nat.lt_of_lt_of_le hlt holder)
  rw [hget] at hwindow
  exact mem_requiredEdges.mpr ⟨hlt, by omega, hwindow⟩

theorem Sized.afterEdge {size : Nat} (h : Sized s size) (t : Nat) :
    Sized (afterEdge s t) size := by
  cases h with
  | full hnone => exact .full hnone
  | rear hrear hsmall hle hlen =>
    refine .rear hrear hsmall hle ?_
    rw [LoadScan.afterEdge, List.length_append]
    exact Nat.le_trans hlen (Nat.le_add_right _ _)

theorem Scanned.afterEdge (h : Scanned s now i count) (holder : s.started ≤ s.edges.length)
    (t : Nat) : Scanned (afterEdge s t) now i count := by
  have hsub : requiredEdges (LoadScan.afterEdge s t) now ⊆ _ := requiredEdges_afterEdge holder t
  constructor
  · exact Nat.le_trans (Finset.card_le_card (Finset.filter_subset_filter _ hsub)) h.below
  · intro n hn hfull hpos
    exact h.all n hn hfull (Nat.lt_of_lt_of_le hpos (Finset.card_le_card hsub))

/-- What the callback knows is about what it found and what it counted. -/
theorem PcInv.of (h : PcInv s) (hpc : s'.pc = s.pc) (hrear : s'.rearAt = s.rearAt)
    (hstarted : s'.started = s.started) (hsized : ∀ size, Sized s size → Sized s' size)
    (hscan : ∀ now i count, Scanned s now i count → Scanned s' now i count) : PcInv s' := by
  unfold PcInv at h ⊢
  rw [hpc]
  split at h
  · trivial
  · exact hrear.trans h
  · exact hstarted ▸ h
  · exact hsized _ h
  · exact ⟨hsized _ h.1, h.2.1, hscan _ _ _ h.2.2⟩
  · obtain ⟨size, hs, hcount⟩ := h
    exact ⟨size, hsized _ hs, hscan _ _ _ hcount⟩

/-- **An edge** takes nothing from what the callback knows. -/
theorem Inv.afterEdge (h : Inv s) {t : Nat} (ht : s.time ≤ t) (hfits : t < 2 ^ 32) :
    Inv (afterEdge s t) where
  wrote := by
    have hpush := h.wrote.push ((t : Nat) : Int)
    show (s.det.ticks.push ((rtTickGet t).toNat : Int)).Wrote ((s.edges ++ [t]).map _)
    rw [toNat_rtTickGet hfits, List.map_append]
    exact hpush
  sorted := by
    refine List.pairwise_append.mpr ⟨h.sorted, List.pairwise_singleton _ _, ?_⟩
    intro e he e' he'
    rw [List.mem_singleton.mp he']
    exact Nat.le_trans (h.past e he) ht
  past := by
    intro e he
    rcases List.mem_append.mp he with hold | hnew
    · exact Nat.le_trans (h.past e hold) ht
    · rw [List.mem_singleton.mp hnew]
      exact Nat.le_refl _
  older := by
    rw [LoadScan.afterEdge, List.length_append]
    exact Nat.le_trans h.older (Nat.le_add_right _ _)
  pcInv := by
    exact h.pcInv.of rfl rfl rfl (fun _ hsized => hsized.afterEdge t)
      fun _ _ _ hscan => hscan.afterEdge h.older t

/-! ### One step of the callback -/

/-- A step that writes neither the cells nor the history. -/
theorem Inv.goto (h : Inv s) (hticks : s'.det.ticks = s.det.ticks) (hedges : s'.edges = s.edges)
    (htime : s.time ≤ s'.time) (holder : s'.started ≤ s.edges.length) (hpc : PcInv s') :
    Inv s' where
  wrote := by
    rw [hticks, hedges]
    exact h.wrote
  sorted := by
    rw [hedges]
    exact h.sorted
  past := by
    rw [hedges]
    exact fun e he => Nat.le_trans (h.past e he) htime
  older := by
    rw [hedges]
    exact holder
  pcInv := hpc

/-- Where the callback is, and what time it is, makes no difference to what it found. -/
theorem Sized.goto {size : Nat} (h : Sized s size) (pc : Pc) (t : Nat) :
    Sized { s with pc := pc, time := t } size := by
  cases h with
  | full hnone => exact .full hnone
  | rear hrear hsmall hle hlen => exact .rear hrear hsmall hle hlen

theorem Scanned.goto (h : Scanned s now i count) (pc : Pc) (t : Nat) :
    Scanned { s with pc := pc, time := t } now i count := ⟨h.below, h.all⟩

/-- Nothing is required of no cells. -/
theorem scanned_zero (s : State) (now : Nat) : Scanned s now 0 0 where
  below := by
    have hempty : requiredBelow s now 0 = ∅ :=
      Finset.filter_eq_empty_iff.mpr fun _ _ => Nat.not_lt_zero _
    rw [hempty]
    exact Nat.le_refl _
  all := fun _ _ _ _ => rfl

/-- A step of the callback, by where it is. -/
theorem Inv.next (h : Inv s) (hnext : next s = some s') : Inv s' := by
  have hknown := h.pcInv
  unfold PcInv at hknown
  unfold LoadScan.next at hnext
  cases hpc : s.pc with
  | idle =>
    simp only [hpc] at hnext
    cases hnext
  | readFulled =>
    simp only [hpc] at hnext hknown
    obtain rfl := Option.some.inj hnext
    refine h.goto rfl rfl (Nat.le_refl _) h.older ?_
    cases hfull : s.det.ticks.fulled with
    | true =>
      show Sized _ kArraySize
      exact .full hknown
    | false =>
      -- the buffer is not full yet, so that there were fewer edges than cells at the start
      show s.started < kArraySize
      have hlen : ¬ kArraySize ≤ (s.edges.map fun (e : Nat) => (e : Int)).length := by
        rw [← h.wrote.fulled, hfull]
        exact Bool.false_ne_true
      rw [List.length_map] at hlen
      exact Nat.lt_of_le_of_lt h.older (Nat.lt_of_not_le hlen)
  | readRear =>
    -- edges may have come since `fulled` was read, and `rear` may have come round
    simp only [hpc] at hnext hknown
    obtain rfl := Option.some.inj hnext
    refine h.goto rfl rfl (Nat.le_refl _) h.older ?_
    show Sized _ s.det.ticks.rear
    rw [h.wrote.rear, List.length_map]
    exact .rear rfl hknown h.older (Nat.le_refl _)
  | readClock size =>
    simp only [hpc] at hnext hknown
    obtain rfl := Option.some.inj hnext
    exact h.goto rfl rfl (Nat.le_refl _) h.older
      ⟨hknown.goto _ _, Nat.zero_le _, (scanned_zero s _).goto _ _⟩
  | scan size now i count =>
    simp only [hpc] at hnext hknown
    obtain ⟨hsized, hle, hscan⟩ := hknown
    by_cases hi : i < size
    · rw [if_pos hi] at hnext
      obtain rfl := Option.some.inj hnext
      exact h.goto rfl rfl (Nat.le_refl _) h.older
        ⟨hsized.goto _ _, Nat.succ_le_of_lt hi, (h.scanned_succ hsized hi hscan).goto _ _⟩
    · rw [if_neg hi] at hnext
      obtain rfl := Option.some.inj hnext
      obtain rfl := Nat.le_antisymm hle (Nat.le_of_not_lt hi)
      exact h.goto rfl rfl (Nat.le_refl _) h.older ⟨i, hsized.goto _ _, hscan.goto _ _⟩
  | assign now count =>
    simp only [hpc] at hnext
    obtain rfl := Option.some.inj hnext
    exact h.goto rfl rfl (Nat.le_refl _) h.older trivial

/-- **One step** keeps the invariant. -/
theorem Inv.step (h : Inv s) {a : Act} (hstep : step s a = some s') : Inv s' := by
  obtain ⟨⟨htime, hfits⟩, hs⟩ := Option.ite_none_right_eq_some.mp hstep
  cases a with
  | edge t =>
    obtain rfl := Option.some.inj hs
    exact h.afterEdge htime hfits
  | start t =>
    obtain ⟨-, hs⟩ := Option.ite_none_right_eq_some.mp hs
    obtain rfl := Option.some.inj hs
    exact h.goto rfl rfl htime (Nat.le_refl _) rfl
  | next t =>
    have hpc : PcInv { s with time := t } :=
      h.pcInv.of rfl rfl rfl (fun _ hsized => hsized.goto _ t) fun _ _ _ hscan => hscan.goto _ t
    exact (h.goto rfl rfl htime h.older hpc : Inv { s with time := t }).next hs

/-- It holds of a new detector. -/
theorem inv_init (cells : List Int) (h : cells.length = kArraySize) : Inv (init cells h) where
  wrote := Ring.Wrote.nil rfl rfl
  sorted := List.Pairwise.nil
  past := fun _ he => nomatch he
  older := Nat.le_refl _
  pcInv := trivial

/-! ### Every run -/

/-- Among the cells that are read are those of all required edges, unless the buffer was filled
    before `rear` was read. -/
theorem required_le_of_sized {size : Nat} (hsized : Sized s size)
    (hnot : ∀ n, s.rearAt = some n → n < kArraySize) :
    required s now ≤ (requiredBelow s now size).card := by
  apply Finset.card_le_card
  intro j hj
  refine Finset.mem_filter.mpr ⟨hj, ?_⟩
  cases hsized with
  | full _ => exact Nat.mod_lt _ (by decide)
  | @rear n hrear hsmall hle hlen =>
    have hlt := (mem_requiredEdges.mp hj).1
    have hn := hnot n hrear
    rw [Nat.mod_eq_of_lt hn, Nat.mod_eq_of_lt (by omega)]
    exact Nat.lt_of_lt_of_le hlt hle

/-- What is counted is enough for `state` if it is all that is required. -/
theorem tolerates_of_le (hpc : s.pc = .assign now count) (hle : required s now ≤ count) :
    Tolerates s now count where
  counted := hle
  kept := by
    intro hsix t s' hstep
    obtain ⟨-, hs⟩ := Option.ite_none_right_eq_some.mp hstep
    have hnext : next { s with time := t } = some s' := hs
    unfold next at hnext
    simp only [hpc] at hnext
    obtain rfl := Option.some.inj hnext
    have hnum : kArraySize * kValidRatioPc / 100 = 6 := by decide
    show some (decide (kArraySize * kValidRatioPc / 100 ≤ count)) = some true
    rw [hnum, decide_eq_true (Nat.le_trans hsix hle)]

/-- **The scan tolerates interrupts** exactly if they did not fill the buffer between the two reads
    that find its size, or if as many cells were read all the same as edges are required. -/
theorem tolerates_iff {cells : List Int} {hcells : cells.length = kArraySize} {as : List Act}
    (h : Runs step anyAction (init cells hcells) as s) (hpc : s.pc = .assign now count) :
    Tolerates s now count ↔
      ∀ n, s.rearAt = some n → kArraySize ≤ n → required s now ≤ n % kArraySize := by
  have hinv : Inv s :=
    h.invariant Inv (fun _ _ _ hs _ hstep => hs.step hstep) (inv_init cells hcells)
  obtain ⟨size, hsized, hscan⟩ : ∃ size, Sized s size ∧ Scanned s now size count := by
    have hknown := hinv.pcInv
    rw [PcInv, hpc] at hknown
    exact hknown
  by_cases hfilled : ∃ n, s.rearAt = some n ∧ kArraySize ≤ n
  · -- every cell that is read holds an edge in the window, so that their number decides
    obtain ⟨n, hn, hfull⟩ := hfilled
    have hsize : size = n % kArraySize := by
      cases hsized with
      | full hnone =>
        rw [hnone] at hn
        cases hn
      | rear hrear _ _ _ =>
        obtain rfl := Option.some.inj (hrear.symm.trans hn)
        rfl
    have hiff : required s now ≤ count ↔ required s now ≤ n % kArraySize := by
      rcases Nat.eq_zero_or_pos (required s now) with hzero | hpos
      · rw [hzero]
        exact ⟨fun _ => Nat.zero_le _, fun _ => Nat.zero_le _⟩
      · rw [hscan.all n hn hfull hpos, hsize]
    constructor
    · intro htol m hm _
      obtain rfl := Option.some.inj (hn.symm.trans hm)
      exact hiff.mp htol.counted
    · intro hcond
      exact tolerates_of_le hpc (hiff.mpr (hcond n hn hfull))
  · have hnot : ∀ n, s.rearAt = some n → n < kArraySize :=
      fun n hn => Nat.lt_of_not_le fun hle => hfilled ⟨n, hn, hle⟩
    constructor
    · exact fun _ n hn hle => absurd ⟨n, hn, hle⟩ hfilled
    · intro _
      apply tolerates_of_le hpc
      exact Nat.le_trans (required_le_of_sized hsized hnot) hscan.below

/-- Six edges, one of which comes while the cells are read. -/
def sixRun : List Act :=
  [.edge 10, .edge 30, .edge 50, .edge 70, .edge 90, .start 100, .next 100, .next 100, .next 101,
    .next 101, .edge 110, .next 110, .next 110, .next 110, .next 110, .next 110]

theorem tolerates_iff_six :
    Tolerates ((run step (init (List.replicate 10 0) (by decide)) sixRun).get (by decide)) 101 5 ↔
      ∀ n, ((run step (init (List.replicate 10 0) (by decide)) sixRun).get (by decide)).rearAt
          = some n → kArraySize ≤ n →
        required ((run step (init (List.replicate 10 0) (by decide)) sixRun).get (by decide)) 101
          ≤ n % kArraySize :=
  tolerates_iff (runs_get (by decide)) (by decide)

/-- The tenth edge comes between the two reads. -/
def tenthRun : List Act :=
  [.edge 10, .edge 30, .edge 50, .edge 70, .edge 90, .edge 110, .edge 130, .edge 150, .edge 170,
    .start 180, .next 180, .edge 190, .next 190, .next 190, .next 190]

theorem none_counted :
    ∃ s, Runs step anyAction (init (List.replicate 10 0) (by decide)) tenthRun s ∧
      s.pc = .assign 190 0 ∧ required s 190 = 9 ∧ ¬ Tolerates s 190 0 := by
  have hnine : required ((run step (init (List.replicate 10 0) (by decide)) tenthRun).get
      (by decide)) 190 = 9 := by decide
  refine ⟨_, runs_get (by decide), by decide, hnine, fun h => ?_⟩
  have hle := h.counted
  rw [hnine] at hle
  exact absurd hle (by decide)

/-! ### Without interrupts -/

/-- A step of the callback at the time of the last event. -/
theorem step_next (hfits : s.time < 2 ^ 32) : step s (.next s.time) = next s :=
  if_pos ⟨Nat.le_refl _, hfits⟩

/-- The rest of the loop counts the rest of the cells. -/
theorem run_scan (hfits : s.time < 2 ^ 32) (now : Nat) {size : Nat} (hsize : size ≤ kArraySize)
    (d : Nat) : ∀ i count, i + d = size →
      run step { s with pc := .scan size now i count } (List.replicate (d + 1) (.next s.time))
        = some { s with pc := .assign now (count + ((s.det.ticks.cells.take size).drop i).countP
            fun tick => decide ((now : Int) - tick < kDetectWndMs)) } := by
  have hlen := s.det.ticks.length_cells
  have hnext : ∀ pc, step { s with pc := pc } (.next s.time) = next { s with pc := pc } :=
    fun pc => step_next (s := { s with pc := pc }) hfits
  induction d with
  | zero =>
    rintro i count rfl
    have hempty : (s.det.ticks.cells.take (i + 0)).drop i = [] :=
      List.drop_eq_nil_of_le (by rw [List.length_take]; omega)
    rw [hempty]
    show (step _ _).bind _ = _
    rw [hnext, next]
    simp [run]
  | succ d ih =>
    rintro i count rfl
    have hi : i < (s.det.ticks.cells.take (i + (d + 1))).length := by
      rw [List.length_take]
      omega
    have hcell : (s.det.ticks.cells.take (i + (d + 1)))[i] = s.det.ticks.cells.getD i 0 := by
      rw [List.getElem_take, List.getD_eq_getElem _ _ (by omega)]
    rw [List.drop_eq_getElem_cons hi, List.countP_cons, hcell]
    show (step _ _).bind _ = _
    rw [hnext, next]
    simp only [show i < i + (d + 1) by omega, if_true, Option.bind_some]
    rw [ih _ _ (by omega)]
    unfold counts
    split_ifs with hin
    · rw [Nat.add_assoc, Nat.add_comm 1]
    · rfl

/-- Steps of the callback alone, all at one time, lead from `s` to `s'`. -/
def LeadsTo (s s' : State) : Prop := ∃ k, run step s (List.replicate k (.next s.time)) = some s'

theorem LeadsTo.trans {s'' : State} (h : LeadsTo s s') (htime : s'.time = s.time)
    (h' : LeadsTo s' s'') : LeadsTo s s'' := by
  obtain ⟨k, hk⟩ := h
  obtain ⟨k', hk'⟩ := h'
  refine ⟨k + k', ?_⟩
  rw [List.replicate_add, run_append, hk, Option.bind_some, ← htime, hk']

theorem leadsTo_next (hfits : s.time < 2 ^ 32) (h : next s = some s') : LeadsTo s s' := by
  refine ⟨1, ?_⟩
  show (step s (.next s.time)).bind _ = _
  rw [step_next hfits, h]
  rfl

/-- The number of cells to read is found. -/
theorem leadsTo_readClock (hfits : s.time < 2 ^ 32) (hpc : s.pc = .readFulled) :
    ∃ rearAt, LeadsTo s { s with pc := .readClock s.det.ticks.size, rearAt := rearAt } := by
  cases hfull : s.det.ticks.fulled with
  | true =>
    refine ⟨s.rearAt, leadsTo_next hfits ?_⟩
    rw [next, hpc, Ring.size, hfull]
    rfl
  | false =>
    refine ⟨some s.edges.length, ?_⟩
    have hfirst : LeadsTo s { s with pc := .readRear } := by
      apply leadsTo_next hfits
      rw [next, hpc, hfull]
      rfl
    have hsecond : LeadsTo { s with pc := .readRear }
        { s with pc := .readClock s.det.ticks.size, rearAt := some s.edges.length } := by
      refine leadsTo_next (s := { s with pc := .readRear }) hfits ?_
      rw [next, Ring.size, hfull]
      rfl
    exact hfirst.trans rfl hsecond

/-- **A callback that is not interrupted** is `onRun`. -/
theorem leadsTo_onRun (hfits : s.time < 2 ^ 32) (hpc : s.pc = .readFulled) :
    ∃ s', LeadsTo s s' ∧ s'.pc = .idle ∧ s'.det = s.det.onRun s.time ∧ s'.edges = s.edges := by
  obtain ⟨rearAt, hsize⟩ := leadsTo_readClock hfits hpc
  have hle : s.det.ticks.size ≤ kArraySize := by
    have hrear := s.det.ticks.rear_lt
    unfold Ring.size
    split_ifs <;> omega
  -- from here on `rear` is not looked at again
  have hclock : LeadsTo { s with pc := .readClock s.det.ticks.size, rearAt := rearAt }
      { s with pc := .scan s.det.ticks.size (rtTickGet s.time).toNat 0 0, rearAt := rearAt } :=
    leadsTo_next (s := { s with pc := .readClock s.det.ticks.size, rearAt := rearAt }) hfits rfl
  have hscan : LeadsTo
      { s with pc := .scan s.det.ticks.size (rtTickGet s.time).toNat 0 0, rearAt := rearAt } _ :=
    ⟨_, run_scan (s := { s with rearAt := rearAt }) hfits _ hle _ 0 0 (Nat.zero_add _)⟩
  rw [List.drop_zero, Nat.zero_add] at hscan
  refine ⟨_, (((hsize.trans rfl hclock).trans rfl hscan).trans rfl
    (leadsTo_next (s := { s with pc := .assign _ _, rearAt := rearAt }) hfits rfl)), rfl, rfl, rfl⟩

end RtCharger.Devices.LoadScan
