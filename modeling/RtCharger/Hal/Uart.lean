import RtCharger.Lib.StepSystem
import Mathlib.Algebra.Ring.Nat

namespace RtCharger.Hal.Uart

open StepSystem

/-!
# Reading from the serial port

`Uart::read` waits until `rxRemain` says that enough bytes are there, subtracts what it is going
to take, and takes it from the FIFO of the serial driver; the receive interrupt overwrites
`rxRemain` with the number of bytes in the FIFO.

* `step` — one step of the reader, or one interrupt;
* `AllOrNone` — what "read all or read none" says about a state;
* `Counted` — the counter never promises more than the FIFO holds;
* `reads_all_or_none` — every run without an interrupt between the two steps that take the
  bytes, and what such an interrupt does.
-/

/-- Where the reader is.  A conversion of `int len` to `std::size_t` keeps the bits. -/
inductive Pc where
  | idle
  /-- at `while(rxRemain < len)` -/
  | test (len : BitVec 32)
  /-- in `event.wait(helper.remain())` -/
  | wait (len : BitVec 32)
  /-- at `rxRemain -= len` -/
  | subtract (len : BitVec 32)
  /-- at `rt_device_read(device, 0, data, len)` -/
  | deviceRead (len : BitVec 32)
deriving DecidableEq, Repr

/-- How a `read` ended: with what it copied to `data`, or with a time-out. -/
inductive Result where
  | returned (len : BitVec 32) (data : List UInt8)
  | threw (len : BitVec 32)
deriving DecidableEq, Repr

/-- The port, its driver and its reader. -/
structure State where
  /-- The receive FIFO of the driver. -/
  fifo : List UInt8
  rxRemain : BitVec 32
  event : Bool
  pc : Pc
  /-- Every byte that was received. -/
  received : List UInt8
  /-- The reads that have ended, in order. -/
  ended : List Result
deriving DecidableEq, Repr

/-- The port after its construction. -/
def initial : State := ⟨[], 0, false, .idle, [], []⟩

/-- What can happen: a call of `read`, its next step, the end of its time-out, an interrupt. -/
inductive Act where
  | call (len : BitVec 32)
  | next
  | timeout
  | isr (bytes : List UInt8)
deriving DecidableEq, Repr

/-- `Uart::onRecv`. -/
def onRecv (s : State) (size : BitVec 32) : State := { s with event := true, rxRemain := size }

/-- `RT_SERIAL_EVENT_RX_IND` of `rt_hw_serial_isr`. -/
def serialIsr (s : State) (bytes : List UInt8) : State :=
  let s := { s with fifo := s.fifo ++ bytes, received := s.received ++ bytes }
  if s.fifo.length ≠ 0 then onRecv s (BitVec.ofNat 32 s.fifo.length) else s

/-- The next step of the reader. -/
def next (s : State) : Option State :=
  match s.pc with
  | .idle           => none
  | .test len       =>
      some { s with pc := if s.rxRemain < len then .wait len else .subtract len }
  | .wait len       => if s.event then some { s with event := false, pc := .test len } else none
  | .subtract len   => some { s with rxRemain := s.rxRemain - len, pc := .deviceRead len }
  | .deviceRead len =>
      -- the driver copies what there is, and `read` does not look at how much that was
      some { s with fifo  := s.fifo.drop len.toNat
                    pc    := .idle
                    ended := s.ended ++ [.returned len (s.fifo.take len.toNat)] }

/-- One step. -/
def step (s : State) : Act → Option State
  | .call len  => if s.pc = .idle then some { s with pc := .test len } else none
  | .next      => next s
  | .timeout   =>
      match s.pc with
      | .wait len => some { s with pc := .idle, ended := s.ended ++ [.threw len] }
      | _         => none
  -- the number of bytes in the FIFO is an `rt_size_t`
  | .isr bytes => if s.fifo.length + bytes.length < 2 ^ 32 then some (serialIsr s bytes) else none

/-! ### Read all or read none -/

/-- What a read has taken from the FIFO. -/
def Result.taken : Result → List UInt8
  | .returned _ data => data
  | .threw _         => []

/-- A read that returns has copied as much as it says. -/
def Result.Full : Result → Prop
  | .returned len data => data.length = len.toNat
  | .threw _           => True

/-- **Read all or read none.** -/
structure AllOrNone (s : State) : Prop where
  /-- The reads took the received bytes in their order, those that threw none. -/
  order : s.ended.flatMap Result.taken ++ s.fifo = s.received
  full : ∀ r ∈ s.ended, r.Full
  /-- `rt_device_read` finds what it is to read. -/
  available : ∀ len, s.pc = .deviceRead len → len.toNat ≤ s.fifo.length

/-- The bytes that are subtracted from the counter and still in the FIFO. -/
def Pc.claimed : Pc → BitVec 32
  | .deviceRead len => len
  | _               => 0

/-- No interrupt comes between `rxRemain -= len` and `rt_device_read`. -/
def OutsideWindow (s : State) : Act → Prop
  | .isr _ => s.pc.claimed = 0
  | _      => True

instance (s : State) : ∀ a, Decidable (OutsideWindow s a)
  | .isr _   => inferInstanceAs (Decidable (s.pc.claimed = 0))
  | .call _  => inferInstanceAs (Decidable True)
  | .next    => inferInstanceAs (Decidable True)
  | .timeout => inferInstanceAs (Decidable True)

/-! ### The interrupt -/

@[simp] theorem fifo_serialIsr (s : State) (bytes : List UInt8) :
    (serialIsr s bytes).fifo = s.fifo ++ bytes := by
  unfold serialIsr
  dsimp only
  split_ifs <;> rfl

@[simp] theorem pc_serialIsr (s : State) (bytes : List UInt8) :
    (serialIsr s bytes).pc = s.pc := by
  unfold serialIsr
  dsimp only
  split_ifs <;> rfl

@[simp] theorem received_serialIsr (s : State) (bytes : List UInt8) :
    (serialIsr s bytes).received = s.received ++ bytes := by
  unfold serialIsr
  dsimp only
  split_ifs <;> rfl

@[simp] theorem ended_serialIsr (s : State) (bytes : List UInt8) :
    (serialIsr s bytes).ended = s.ended := by
  unfold serialIsr
  dsimp only
  split_ifs <;> rfl

/-! ### What one step does -/

/-- What a step leads to, with the guards that were passed. -/
inductive Stepped (s : State) : Act → State → Prop
  | call {len} : s.pc = .idle → Stepped s (.call len) { s with pc := .test len }
  | waits {len} : s.pc = .test len → s.rxRemain < len → Stepped s .next { s with pc := .wait len }
  | enough {len} : s.pc = .test len → len ≤ s.rxRemain →
      Stepped s .next { s with pc := .subtract len }
  | woken {len} : s.pc = .wait len → Stepped s .next { s with event := false, pc := .test len }
  | subtracts {len} : s.pc = .subtract len →
      Stepped s .next { s with rxRemain := s.rxRemain - len, pc := .deviceRead len }
  | reads {len} : s.pc = .deviceRead len →
      Stepped s .next { s with fifo  := s.fifo.drop len.toNat
                               pc    := .idle
                               ended := s.ended ++ [.returned len (s.fifo.take len.toNat)] }
  | throws {len} : s.pc = .wait len →
      Stepped s .timeout { s with pc := .idle, ended := s.ended ++ [.threw len] }
  | isr {bytes} : s.fifo.length + bytes.length < 2 ^ 32 →
      Stepped s (.isr bytes) (serialIsr s bytes)

theorem next_stepped {s s' : State} (h : next s = some s') : Stepped s .next s' := by
  unfold next at h
  split at h
  · cases h
  · rename_i len hpc
    obtain rfl := Option.some.inj h
    split_ifs with hlt
    · exact .waits hpc hlt
    · exact .enough hpc (BitVec.not_lt.mp hlt)
  · rename_i len hpc
    split_ifs at h
    obtain rfl := Option.some.inj h
    exact .woken hpc
  · rename_i len hpc
    obtain rfl := Option.some.inj h
    exact .subtracts hpc
  · rename_i len hpc
    obtain rfl := Option.some.inj h
    exact .reads hpc

theorem step_stepped {s s' : State} {a : Act} (h : step s a = some s') : Stepped s a s' := by
  unfold step at h
  cases a with
  | call len =>
    obtain ⟨hpc, hs⟩ := Option.ite_none_right_eq_some.mp h
    obtain rfl := Option.some.inj hs
    exact .call hpc
  | next => exact next_stepped h
  | timeout =>
    dsimp only at h
    split at h
    · rename_i len hpc
      obtain rfl := Option.some.inj h
      exact .throws hpc
    · cases h
  | isr bytes =>
    obtain ⟨hfit, hs⟩ := Option.ite_none_right_eq_some.mp h
    obtain rfl := Option.some.inj hs
    exact .isr hfit

/-! ### The counter -/

/-- What the counter promises is there, besides what is about to be read. -/
structure Counted (s : State) : Prop where
  counter : s.rxRemain.toNat + s.pc.claimed.toNat ≤ s.fifo.length
  tested : ∀ len, s.pc = .subtract len → len ≤ s.rxRemain

/-- A reader at `rt_device_read` finds its bytes. -/
theorem Counted.available {s : State} (h : Counted s) (len : BitVec 32)
    (hpc : s.pc = .deviceRead len) : len.toNat ≤ s.fifo.length := by
  have hle := h.counter
  rw [hpc] at hle
  exact Nat.le_trans (Nat.le_add_left _ _) hle

theorem Counted.rxRemain_le {s : State} (h : Counted s) : s.rxRemain.toNat ≤ s.fifo.length :=
  Nat.le_trans (Nat.le_add_right _ _) h.counter

/-- An interrupt sets the counter to what is in the FIFO. -/
theorem rxRemain_serialIsr {s : State} {bytes : List UInt8} (hcount : Counted s)
    (hfit : s.fifo.length + bytes.length < 2 ^ 32) :
    (serialIsr s bytes).rxRemain.toNat = s.fifo.length + bytes.length := by
  have hlen : (s.fifo ++ bytes).length = s.fifo.length + bytes.length := List.length_append
  unfold serialIsr
  dsimp only
  split_ifs with hne
  · show (BitVec.ofNat 32 (s.fifo ++ bytes).length).toNat = _
    rw [BitVec.toNat_ofNat, hlen, Nat.mod_eq_of_lt hfit]
  · -- nothing is in the FIFO and nothing came: `onRecv` is not called
    show s.rxRemain.toNat = _
    have hle := hcount.rxRemain_le
    omega

/-- A step of the reader outside the section from `rxRemain -= len` on. -/
theorem Counted.goto {s s' : State} (h : Counted s) (hfifo : s'.fifo = s.fifo)
    (hrem : s'.rxRemain = s.rxRemain) (hpc : s'.pc.claimed = 0)
    (htest : ∀ len, s'.pc = .subtract len → len ≤ s.rxRemain) : Counted s' := by
  refine ⟨?_, by rwa [hrem]⟩
  rw [hpc, hfifo, hrem]
  exact h.rxRemain_le

/-- **One step** outside the window. -/
theorem Stepped.counted {s s' : State} {a : Act} (h : Stepped s a s') (hcount : Counted s)
    (hout : OutsideWindow s a) : Counted s' := by
  cases h with
  | call _ => exact hcount.goto rfl rfl rfl nofun
  | waits _ _ => exact hcount.goto rfl rfl rfl nofun
  | enough _ hle =>
    refine hcount.goto rfl rfl rfl ?_
    intro len' hlen'
    obtain rfl := Pc.subtract.inj hlen'
    exact hle
  | woken _ => exact hcount.goto rfl rfl rfl nofun
  | @subtracts len hpc =>
    refine ⟨?_, nofun⟩
    show (s.rxRemain - len).toNat + len.toNat ≤ s.fifo.length
    -- the test was passed, and interrupts since then have not lowered the counter
    have hlen := hcount.tested len hpc
    have hle := hcount.rxRemain_le
    rw [BitVec.toNat_sub_of_le hlen]
    rw [BitVec.le_def] at hlen
    omega
  | @reads len hpc =>
    refine ⟨?_, nofun⟩
    -- what was claimed leaves the FIFO
    show s.rxRemain.toNat + 0 ≤ (s.fifo.drop len.toNat).length
    have hle := hcount.counter
    rw [hpc] at hle
    rw [List.length_drop]
    exact Nat.le_sub_of_add_le hle
  | throws _ => exact hcount.goto rfl rfl rfl nofun
  | @isr bytes hfit =>
    have hrem := rxRemain_serialIsr hcount hfit
    constructor
    · -- nothing is claimed: the interrupt counts each byte once
      rw [pc_serialIsr, show s.pc.claimed = 0 from hout, hrem, fifo_serialIsr,
        List.length_append]
      exact Nat.le_refl _
    · intro len hpc
      rw [pc_serialIsr] at hpc
      have hlen := hcount.tested len hpc
      have hle := hcount.rxRemain_le
      rw [BitVec.le_def] at hlen ⊢
      omega

/-! ### The bytes -/

/-- A read that ends is logged with what it took. -/
theorem AllOrNone.log {s : State} (h : AllOrNone s) {r : Result} {rest : List UInt8}
    (htaken : r.taken ++ rest = s.fifo) (hfull : r.Full) :
    (s.ended ++ [r]).flatMap Result.taken ++ rest = s.received ∧ ∀ q ∈ s.ended ++ [r], q.Full := by
  constructor
  · rw [List.flatMap_append, List.flatMap_singleton, List.append_assoc, htaken]
    exact h.order
  · intro q hq
    rcases List.mem_append.mp hq with hold | hnew
    · exact h.full q hold
    · rw [List.mem_singleton.mp hnew]
      exact hfull

/-- **One step** from a state in which the counter is right. -/
theorem Stepped.allOrNone {s s' : State} {a : Act} (h : Stepped s a s') (hcount : Counted s)
    (hcount' : Counted s') (hall : AllOrNone s) : AllOrNone s' := by
  cases h with
  | call _ => exact ⟨hall.order, hall.full, hcount'.available⟩
  | waits _ _ => exact ⟨hall.order, hall.full, hcount'.available⟩
  | enough _ _ => exact ⟨hall.order, hall.full, hcount'.available⟩
  | woken _ => exact ⟨hall.order, hall.full, hcount'.available⟩
  | subtracts _ => exact ⟨hall.order, hall.full, hcount'.available⟩
  | @reads len hpc =>
    have hfull : (s.fifo.take len.toNat).length = len.toNat := by
      rw [List.length_take, Nat.min_eq_left (hcount.available len hpc)]
    obtain ⟨horder, hall'⟩ :=
      hall.log (r := .returned len _) (List.take_append_drop len.toNat s.fifo) hfull
    exact ⟨horder, hall', hcount'.available⟩
  | @throws len hpc =>
    obtain ⟨horder, hall'⟩ := hall.log (r := .threw len) (List.nil_append s.fifo) trivial
    exact ⟨horder, hall', hcount'.available⟩
  | @isr bytes hfit =>
    refine ⟨?_, ?_, hcount'.available⟩
    · rw [ended_serialIsr, fifo_serialIsr, received_serialIsr, ← List.append_assoc, hall.order]
    · rw [ended_serialIsr]
      exact hall.full

/-! ### Every run -/

/-- What holds along every run whose interrupts are outside the window. -/
theorem runs_counted {as : List Act} {s : State} (h : Runs step OutsideWindow initial as s) :
    Counted s ∧ AllOrNone s := by
  refine h.invariant (fun s => Counted s ∧ AllOrNone s) ?_ ?_
  · intro s a s' hs hout hstep
    have hstepped := step_stepped hstep
    have hcount' := hstepped.counted hs.1 hout
    exact ⟨hcount', hstepped.allOrNone hs.1 hcount' hs.2⟩
  · exact ⟨⟨Nat.le_refl _, nofun⟩, ⟨rfl, nofun, nofun⟩⟩

/-- The last step of a `read`. -/
theorem step_deviceRead {s : State} {len : BitVec 32} (hpc : s.pc = .deviceRead len) :
    ∃ t, step s .next = some t ∧ t.pc = .idle ∧ t.rxRemain = s.rxRemain ∧
      t.fifo = s.fifo.drop len.toNat := by
  unfold step next
  rw [hpc]
  exact ⟨_, rfl, rfl, rfl, rfl⟩

/-- A reader that is free, with a counter that promises too much: it comes out short when it
    is asked for all that the counter promises. -/
theorem short_read {s : State} (hidle : s.pc = .idle)
    (hmore : s.fifo.length < s.rxRemain.toNat) :
    ∃ as s', Runs step OutsideWindow s as s' ∧ ¬ AllOrNone s' := by
  refine ⟨[.call s.rxRemain, .next, .next, .next],
    { s with fifo     := s.fifo.drop s.rxRemain.toNat
             rxRemain := s.rxRemain - s.rxRemain
             ended    := s.ended ++ [.returned s.rxRemain (s.fifo.take s.rxRemain.toNat)] },
    runs_of_checkedRun ?_, ?_⟩
  · simp [checkedRun, run, step, next, OutsideWindow, hidle]
  · intro hall
    have hfull := hall.full (.returned s.rxRemain (s.fifo.take s.rxRemain.toNat)) (by simp)
    have hlen : (s.fifo.take s.rxRemain.toNat).length = s.rxRemain.toNat := hfull
    rw [List.length_take] at hlen
    omega

/-- An interrupt in the window counts the bytes once more that are about to be read. -/
theorem short_after_window {s s' : State} {bytes : List UInt8} (hcount : Counted s)
    (hin : s.pc.claimed ≠ 0) (h : step s (.isr bytes) = some s') :
    ∃ as s'', Runs step OutsideWindow s' as s'' ∧ ¬ AllOrNone s'' := by
  obtain ⟨hfit, hs⟩ := Option.ite_none_right_eq_some.mp h
  obtain rfl := Option.some.inj hs
  have hrem := rxRemain_serialIsr hcount hfit
  cases hpc : s.pc with
  | deviceRead len =>
    have hlen : len.toNat ≠ 0 := by
      intro hzero
      rw [hpc] at hin
      exact hin (BitVec.eq_of_toNat_eq hzero)
    have hle := hcount.available len hpc
    -- the read in progress ends first, and takes what the counter still promises
    have hpc' : (serialIsr s bytes).pc = .deviceRead len := by rw [pc_serialIsr, hpc]
    obtain ⟨t, hstep, hidle, hrem', hfifo⟩ := step_deviceRead hpc'
    have hmore : t.fifo.length < t.rxRemain.toNat := by
      rw [hfifo, hrem', hrem, fifo_serialIsr, List.length_drop, List.length_append]
      omega
    obtain ⟨as, u, hruns, hshort⟩ := short_read hidle hmore
    exact ⟨.next :: as, u, (Runs.single trivial hstep).append hruns, hshort⟩
  | _ => exact absurd (by rw [hpc]; rfl) hin

/-- **Reads take all or none** in every run in which no interrupt comes between
    `rxRemain -= len` and `rt_device_read` for some `len ≠ 0`; and the first one that does can
    be followed by a read that returns without having copied what it says. -/
theorem reads_all_or_none {as : List Act} {s : State}
    (h : Runs step OutsideWindow initial as s) :
    AllOrNone s ∧
      ∀ bytes s', ¬ OutsideWindow s (.isr bytes) → step s (.isr bytes) = some s' →
        ∃ as' s'', Runs step OutsideWindow s' as' s'' ∧ ¬ AllOrNone s'' := by
  obtain ⟨hcount, hall⟩ := runs_counted h
  exact ⟨hall, fun bytes s' hin hstep => short_after_window hcount hin hstep⟩

/-- Two bytes come, one is read, another one comes after that, and all are read; the next read
    times out. -/
def sampleRun : List Act :=
  [.isr [1, 2], .call 1, .next, .next, .next, .isr [3], .call 2, .next, .next, .next,
    .call 1, .next, .timeout]

theorem reads_all_or_none_sample :
    AllOrNone ((checkedRun step OutsideWindow initial sampleRun).get (by decide)) ∧
      ((checkedRun step OutsideWindow initial sampleRun).get (by decide)).ended
        = [.returned 1 [1], .returned 2 [2, 3], .threw 1] :=
  ⟨(reads_all_or_none (runs_checked_get (by decide))).1, by decide⟩

/-- One byte comes while five are being taken: the next read of three returns with that one. -/
def windowRun : List Act :=
  [.isr [1, 2, 3, 4, 5], .call 5, .next, .next, .isr [6], .next, .call 3, .next, .next, .next]

theorem read_short :
    ∃ s, Runs step anyAction initial windowRun s ∧
      s.ended = [.returned 5 [1, 2, 3, 4, 5], .returned 3 [6]] ∧ ¬ AllOrNone s := by
  have hended : ((run step initial windowRun).get (by decide)).ended
      = [.returned 5 [1, 2, 3, 4, 5], .returned 3 [6]] := by decide
  refine ⟨_, runs_get (by decide), hended, ?_⟩
  intro hall
  have hfull := hall.full (.returned 3 [6]) (by rw [hended]; simp)
  exact absurd (show ([6] : List UInt8).length = (3 : BitVec 32).toNat from hfull) (by decide)

end RtCharger.Hal.Uart
