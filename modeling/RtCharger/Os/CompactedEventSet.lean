import RtCharger.Kernel.Event
import Mathlib.Algebra.Group.Int.Defs
import Mathlib.Algebra.Ring.Nat

namespace RtCharger.Os

open OneHot Kernel

/-!
# `CompactedEventSet`

Thirty-two events in one kernel event object (`compacted_event_set.cxx`): a bitmap of the
bits in use and the kernel event whose bits are the flags.  The object itself; who owns it
and who lists it is in `EventAllocator.lean`.
-/

/-- `CompactedEventSet`: `std::bitset<32> bits` and `rt_event_t event`. -/
structure CompactedEventSet (Tid : Type) where
  bits : BitVec 32
  event : RtEvent Tid
deriving DecidableEq, Repr

namespace CompactedEventSet

variable {Tid : Type}

/-- A new set: no bit in use, `rt_event_create("ces", RT_IPC_FLAG_FIFO)`. -/
def new (Tid : Type) : CompactedEventSet Tid := ⟨0#32, rtEventCreate Tid⟩

/-- `CompactedEventSet::full`: `bits.all()`. -/
def full (s : CompactedEventSet Tid) : Bool := decide (s.bits = BitVec.allOnes 32)

/-- `CompactedEventSet::alloc`: the lowest bit not in use, marked used. -/
def alloc (s : CompactedEventSet Tid) : Except String (Fin 32 × CompactedEventSet Tid) :=
  if s.full then .error "fulled"
  else
    -- `currBit` keeps its initial value `0` if the loop finds no clear bit
    let currBit := (firstClear s.bits).getD 0
    .ok (currBit, { s with bits := s.bits ||| oneHot currBit })

/-- `bits.reset(bit)`, the first statement of `CompactedEventSet::free`. -/
def reset (s : CompactedEventSet Tid) (b : Fin 32) : CompactedEventSet Tid :=
  { s with bits := s.bits &&& ~~~oneHot b }

/-- `bits.none()`, the test of `CompactedEventSet::free`. -/
def unused (s : CompactedEventSet Tid) : Bool := decide (s.bits = 0#32)

/-- `CompactedEventSet::set`: the threads that `rt_event_send(event, 1 << bit)` resumes, and
    the set afterwards. -/
def set (s : CompactedEventSet Tid) (b : Fin 32) :
    List (Waiter Tid) × CompactedEventSet Tid :=
  let r := rtEventSend s.event (oneHot b)
  (r.2.2, { s with event := r.2.1 })

/-- `chrono::milliseconds::max()`. -/
def millisecondsMax : Int := 2 ^ 63 - 1

/-- The time-out passed on to the kernel: `RT_WAITING_FOREVER` for `milliseconds::max()`,
    otherwise the count narrowed to `rt_int32_t`. -/
def rtTimeout (timeout : Int) : Int :=
  if timeout = millisecondsMax then rtWaitingForever else timeout.bmod (2 ^ 32)

/-- `CompactedEventSet::wait` of the thread `self`, up to the point where the thread gives up
    the processor. -/
def wait (s : CompactedEventSet Tid) (self : Tid) (b : Fin 32) (timeout : Int) :
    Recv × CompactedEventSet Tid :=
  let r := rtEventRecv s.event self (oneHot b) andClear (rtTimeout timeout)
  (r.1, { s with event := r.2 })

/-! ### The bitmap -/

/-- Bit `b` is in use. -/
def uses (s : CompactedEventSet Tid) (b : Fin 32) : Bool := bit s.bits b

@[simp] theorem uses_new (b : Fin 32) : (new Tid).uses b = false := by simp [uses, new]

theorem full_iff (s : CompactedEventSet Tid) : s.full = true ↔ ∀ b, s.uses b = true := by
  rw [full, decide_eq_true_eq, eq_allOnes_iff]
  rfl

theorem unused_iff (s : CompactedEventSet Tid) : s.unused = true ↔ ∀ b, s.uses b = false := by
  rw [unused, decide_eq_true_eq, eq_zero_iff]
  rfl

@[simp] theorem full_new : (new Tid).full = false := by
  rw [← Bool.not_eq_true, full_iff]
  exact fun h => absurd (h 0) (by simp)

@[simp] theorem uses_reset (s : CompactedEventSet Tid) (b c : Fin 32) :
    (s.reset b).uses c = (s.uses c && decide (c ≠ b)) := by
  simp [uses, reset]

/-- `alloc` of a set that is not full takes a bit that was not in use, and nothing else
    changes. -/
theorem alloc_ok {s : CompactedEventSet Tid} (h : s.full = false) :
    ∃ b s', s.alloc = .ok (b, s') ∧ s.uses b = false ∧ s'.event = s.event ∧
      ∀ c, s'.uses c = (s.uses c || decide (c = b)) := by
  have hne : s.bits ≠ BitVec.allOnes 32 := by simpa [full] using h
  obtain ⟨b, hb⟩ := firstClear_isSome hne
  refine ⟨b, { s with bits := s.bits ||| oneHot b }, ?_, firstClear_clear hb, rfl, ?_⟩
  · simp [alloc, h, hb]
  · intro c
    simp [uses]

end CompactedEventSet

end RtCharger.Os
