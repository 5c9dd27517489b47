import RtCharger.Lib.SerialBits
import RtCharger.Os.Task

namespace RtCharger.Devices.Wtn6

open StepSystem SerialBits RtCharger.Os.Post RtCharger.Os.Task

/-!
# The voice chip's data line

`Wtn6::write` has a byte sent on one line by the functions that it runs on a `Task`: the line is
low for five milliseconds, then for each bit high and low for times that tell the bit, and high in
the end.  The times are what the delays take, which is not exact.

* `write`, `writeBit` — the functions of the source, as what they do to the line;
* `Takes` — how long the operations may take;
* `Rx` — a chip that reads the line, with the times alone;
* `bytes_received` — it reads the bytes of the writers.
-/

/-! ### The functions of the source -/

/-- What is done to the line. -/
inductive Op where
  /-- `rt_pin_write`. -/
  | pinWrite (level : Bool)
  /-- `rt_thread_mdelay`. -/
  | mdelay (ms : Nat)
  /-- `rt_hw_us_delay`. -/
  | usDelay (us : Nat)
  /-- Work that leaves the line alone. -/
  | other
deriving DecidableEq, Repr

/-- `Wtn6::writeBit`. -/
def writeBit (bit : Bool) : List Op :=
  let (delayHigh, delayLow) := if bit then (600, 200) else (200, 600)
  [.pinWrite true, .usDelay delayHigh, .pinWrite false, .usDelay delayLow]

/-- The function that `Wtn6::write` has executed. -/
def write (data : UInt8) : List Op :=
  [.pinWrite false, .mdelay 5, .pinWrite true] ++
    ((List.range 8).flatMap fun i => writeBit (data.toNat &&& 1 <<< i != 0)) ++ [.pinWrite true]

/-- The functions that the task executes: those of `write`, and those of other devices. -/
inductive Job where
  | write (data : UInt8)
  | other
deriving DecidableEq, Repr

/-- Before each function the task waits for it. -/
def Job.ops : Job → List Op
  | .write data => .other :: Wtn6.write data
  | .other      => [.other]

/-- The byte that is sent. -/
def Job.data : Job → Option UInt8
  | .write data => some data
  | .other      => none

/-- How many microseconds an operation may take: a delay at least its time and at most `slack`
    more.  A thread that sleeps wakes up at a tick, so it may be almost a tick early. -/
def Op.Takes (slack : Nat) : Op → Nat → Prop
  | .pinWrite _, time  => time ≤ slack
  | .mdelay ms, time   => (ms - 1) * 1000 ≤ time
  | .usDelay us, time  => us ≤ time ∧ time ≤ us + slack
  | .other, _          => True

instance (slack : Nat) : (op : Op) → (time : Nat) → Decidable (op.Takes slack time)
  | .pinWrite _, _ => inferInstanceAs (Decidable (_ ≤ _))
  | .mdelay _, _   => inferInstanceAs (Decidable (_ ≤ _))
  | .usDelay _, _  => inferInstanceAs (Decidable (_ ∧ _))
  | .other, _      => isTrue trivial

/-! ### A reader of the line -/

/-- The line, how long it has been at this level, how long it was high before, the bits of
    the byte that is being read, and the bytes. -/
structure Rx where
  level : Bool
  elapsed : Nat
  high : Nat
  bits : Option (List Bool)
  bytes : List UInt8
deriving DecidableEq, Repr

/-- The line is high after the constructor of `Wtn6`. -/
def Rx.idle : Rx := ⟨true, 0, 0, none, []⟩

/-- The level changes.  A low level of `start` microseconds begins a byte; a shorter one ends
    a bit, which is set if the line was high for longer. -/
def Rx.edge (start : Nat) (r : Rx) : Rx :=
  if r.level then { r with high := r.elapsed }
  else if start ≤ r.elapsed then { r with bits := some [] }
  else
    match r.bits with
    | none      => r
    | some bits =>
      let bits := bits ++ [decide (r.elapsed < r.high)]
      if bits.length = 8 then { r with bits := none, bytes := r.bytes ++ [ofBits bits] }
      else { r with bits := some bits }

/-- An operation, and how long it takes. -/
def Rx.op (start : Nat) (r : Rx) : Op × Nat → Rx
  | (.pinWrite level, time) =>
    if level = r.level then { r with elapsed := r.elapsed + time }
    else { r.edge start with level := level, elapsed := time }
  | (_, time)               => { r with elapsed := r.elapsed + time }

/-- What is read of a line on which these operations were done. -/
def received (start : Nat) (timed : List (Op × Nat)) : List UInt8 :=
  (timed.foldl (Rx.op start) .idle).bytes

/-! ### One bit -/

/-- The first operation, with its time. -/
theorem timed_cons {timed : List (Op × Nat)} {op : Op} {ops : List Op}
    (h : timed.map Prod.fst = op :: ops) :
    ∃ time rest, timed = (op, time) :: rest ∧ rest.map Prod.fst = ops := by
  obtain ⟨⟨_, time⟩, rest, rfl, rfl, hrest⟩ := List.map_eq_cons_iff.mp h
  exact ⟨time, rest, rfl, hrest⟩

variable {slack start : Nat} {r : Rx}

/-- From the time where the line is high for a bit to the time where it is high again. -/
def bitCycle (bit : Bool) : List Op :=
  [.usDelay (if bit then 600 else 200), .pinWrite false, .usDelay (if bit then 200 else 600),
    .pinWrite true]

theorem writeBits_eq (bits : List Bool) :
    bits.flatMap writeBit ++ [.pinWrite true] = .pinWrite true :: bits.flatMap bitCycle := by
  induction bits with
  | nil => rfl
  | cons bit bits ih =>
    rw [List.flatMap_cons, List.append_assoc, ih]
    cases bit <;> rfl

/-- The chip's tolerance. -/
structure Tolerant (slack start : Nat) : Prop where
  bits : 3 * slack < 400
  data : 600 + 2 * slack < start
  start : start ≤ 4000

/-- The state after a bit. -/
def Rx.push (r : Rx) (high elapsed : Nat) (bits : List Bool) (bit : Bool) : Rx :=
  let bits := bits ++ [bit]
  if bits.length = 8 then ⟨true, elapsed, high, none, r.bytes ++ [ofBits bits]⟩
  else ⟨true, elapsed, high, some bits, r.bytes⟩

/-- **One bit** is read, whatever the delays take. -/
theorem run_bitCycle (ht : Tolerant slack start) (hlevel : r.level = true)
    (helapsed : r.elapsed ≤ 2 * slack) {bits : List Bool} (hbits : r.bits = some bits) (bit : Bool)
    {timed : List (Op × Nat)} (hops : timed.map Prod.fst = bitCycle bit)
    (htime : ∀ x ∈ timed, x.1.Takes slack x.2) :
    ∃ high elapsed, elapsed ≤ slack ∧
      timed.foldl (Rx.op start) r = r.push high elapsed bits bit := by
  obtain ⟨a, l, rfl, hl⟩ := timed_cons hops
  obtain ⟨b, m, rfl, hm⟩ := timed_cons hl
  obtain ⟨c, n, rfl, hn⟩ := timed_cons hm
  obtain ⟨d, o, rfl, ho⟩ := timed_cons hn
  obtain rfl := List.map_eq_nil_iff.mp ho
  simp only [List.forall_mem_cons, Op.Takes] at htime
  obtain ⟨ha, hb, hc, hd, -⟩ := htime
  obtain ⟨hslack, hdata, -⟩ := ht
  -- the chip has seen the line high for `r.elapsed + a` and low for `b + c`
  have hbit : decide (b + c < r.elapsed + a) = bit := by
    cases bit
    · simp only [Bool.false_eq_true, if_false] at ha hc
      exact decide_eq_false (by omega)
    · simp only [if_true] at ha hc
      exact decide_eq_true (by omega)
  have hshort : ¬start ≤ b + c := by
    cases bit
    · simp only [Bool.false_eq_true, if_false] at hc
      omega
    · simp only [if_true] at hc
      omega
  refine ⟨r.elapsed + a, d, hd, ?_⟩
  simp only [List.foldl_cons, List.foldl_nil, Rx.op, hlevel, Bool.false_eq_true, if_false,
    Rx.edge, if_true, Bool.true_eq_false, if_neg hshort, hbits, hbit, Rx.push]
  split_ifs <;> rfl

/-- **The bits of a byte** are read one after the other. -/
theorem run_bits (ht : Tolerant slack start) {todo done : List Bool} (hne : todo ≠ [])
    (hlen : (done ++ todo).length = 8) (hlevel : r.level = true)
    (helapsed : r.elapsed ≤ 2 * slack) (hbits : r.bits = some done)
    {timed : List (Op × Nat)} (hops : timed.map Prod.fst = todo.flatMap bitCycle)
    (htime : ∀ x ∈ timed, x.1.Takes slack x.2) :
    ∃ high elapsed, timed.foldl (Rx.op start) r
      = ⟨true, elapsed, high, none, r.bytes ++ [ofBits (done ++ todo)]⟩ := by
  induction todo generalizing done r timed with
  | nil => exact absurd rfl hne
  | cons bit todo ih =>
    rw [List.flatMap_cons] at hops
    obtain ⟨first, rest, rfl, hfirst, hrest⟩ := List.map_eq_append_iff.mp hops
    obtain ⟨high, elapsed, hel, hrun⟩ := run_bitCycle ht hlevel helapsed hbits bit hfirst
      fun x hx => htime x (List.mem_append_left _ hx)
    rw [List.foldl_append, hrun]
    by_cases hlast : todo = []
    · subst hlast
      obtain rfl := List.map_eq_nil_iff.mp hrest
      exact ⟨high, elapsed, if_pos (by simpa using hlen)⟩
    · have hmore : (done ++ [bit]).length ≠ 8 := by
        have hpos := List.length_pos_of_ne_nil hlast
        simp only [List.length_append, List.length_cons] at hlen ⊢
        simp only [List.length_nil]
        omega
      have hpush : r.push high elapsed done bit
          = ⟨true, elapsed, high, some (done ++ [bit]), r.bytes⟩ := if_neg hmore
      rw [hpush]
      have hih := ih (r := ⟨true, elapsed, high, some (done ++ [bit]), r.bytes⟩) hlast
        (by simpa using hlen) rfl (by show elapsed ≤ _; omega) rfl hrest
        fun x hx => htime x (List.mem_append_right _ hx)
      rw [List.append_assoc, List.singleton_append] at hih
      exact hih

/-! ### One byte -/

theorem write_eq (data : UInt8) :
    write data = [.pinWrite false, .mdelay 5, .pinWrite true, .pinWrite true] ++
      (bitsOf data).flatMap bitCycle := by
  have hbits : (List.range 8).flatMap (fun i => writeBit (data.toNat &&& 1 <<< i != 0))
      = (bitsOf data).flatMap writeBit := by
    rw [bitsOf, List.flatMap_map]
    simp only [and_shift_ne_zero]
  rw [write, hbits, List.append_assoc, writeBits_eq]
  rfl

/-- **One byte** is read when the line is high at first. -/
theorem run_write (ht : Tolerant slack start) (hlevel : r.level = true) (data : UInt8)
    {timed : List (Op × Nat)} (hops : timed.map Prod.fst = write data)
    (htime : ∀ x ∈ timed, x.1.Takes slack x.2) :
    ∃ high elapsed, timed.foldl (Rx.op start) r
      = ⟨true, elapsed, high, none, r.bytes ++ [data]⟩ := by
  rw [write_eq] at hops
  obtain ⟨a, l, rfl, hl⟩ := timed_cons hops
  obtain ⟨b, m, rfl, hm⟩ := timed_cons hl
  obtain ⟨c, n, rfl, hn⟩ := timed_cons hm
  obtain ⟨d, rest, rfl, hbits⟩ := timed_cons hn
  simp only [List.forall_mem_cons, Op.Takes] at htime
  obtain ⟨ha, hb, hc, hd, hrest⟩ := htime
  -- the line was low for long enough
  have hstart : start ≤ a + b := by
    have := ht.start
    omega
  have hbegin : [(Op.pinWrite false, a), (.mdelay 5, b), (.pinWrite true, c),
      (.pinWrite true, d)].foldl (Rx.op start) r = ⟨true, c + d, r.elapsed, some [], r.bytes⟩ := by
    simp [Rx.op, Rx.edge, hlevel, hstart]
  have hsplit : (Op.pinWrite false, a) :: (.mdelay 5, b) :: (.pinWrite true, c)
      :: (.pinWrite true, d) :: rest = [(Op.pinWrite false, a), (.mdelay 5, b), (.pinWrite true, c),
        (.pinWrite true, d)] ++ rest := rfl
  rw [hsplit, List.foldl_append, hbegin]
  obtain ⟨high, elapsed, hrun⟩ := run_bits (r := ⟨true, c + d, r.elapsed, some [], r.bytes⟩)
    ht (by simp [bitsOf]) (by simp [bitsOf]) rfl (by show c + d ≤ _; omega) rfl hbits hrest
  rw [List.nil_append, ofBits_bitsOf] at hrun
  exact ⟨high, elapsed, hrun⟩

/-- One function of the task. -/
theorem run_job (ht : Tolerant slack start) (hlevel : r.level = true) (hbits : r.bits = none)
    (job : Job) {timed : List (Op × Nat)} (hops : timed.map Prod.fst = job.ops)
    (htime : ∀ x ∈ timed, x.1.Takes slack x.2) :
    ∃ high elapsed, timed.foldl (Rx.op start) r
      = ⟨true, elapsed, high, none, r.bytes ++ job.data.toList⟩ := by
  cases job with
  | write data =>
    obtain ⟨a, l, rfl, hl⟩ := timed_cons hops
    exact run_write (r := r.op start (.other, a)) ht hlevel data hl
      fun x hx => htime x (List.mem_cons_of_mem _ hx)
  | other =>
    obtain ⟨a, l, rfl, hl⟩ := timed_cons hops
    obtain rfl := List.map_eq_nil_iff.mp hl
    refine ⟨r.high, r.elapsed + a, ?_⟩
    simp [Rx.op, Job.data, ← hlevel, ← hbits]

/-- All functions that were called. -/
theorem run_jobs (ht : Tolerant slack start) (hlevel : r.level = true) (hbits : r.bits = none)
    (jobs : List Job) {timed : List (Op × Nat)} (hops : timed.map Prod.fst = jobs.flatMap Job.ops)
    (htime : ∀ x ∈ timed, x.1.Takes slack x.2) :
    (timed.foldl (Rx.op start) r).bytes = r.bytes ++ jobs.filterMap Job.data := by
  induction jobs generalizing r timed with
  | nil =>
    obtain rfl := List.map_eq_nil_iff.mp hops
    simp
  | cons job jobs ih =>
    rw [List.flatMap_cons] at hops
    obtain ⟨first, rest, rfl, hfirst, hrest⟩ := List.map_eq_append_iff.mp hops
    obtain ⟨high, elapsed, hrun⟩ := run_job ht hlevel hbits job hfirst
      fun x hx => htime x (List.mem_append_left _ hx)
    rw [List.foldl_append, hrun,
      ih rfl rfl hrest fun x hx => htime x (List.mem_append_right _ hx)]
    cases hdata : job.data <;> simp [hdata]

/-! ### All writers -/

variable {Tid : Type} [DecidableEq Tid]

/-- The bytes that one thread has written, as far as they are among these. -/
def bytesOf (t : Tid) (cs : List (Context (Tid × Job))) : List UInt8 :=
  (ofThread t cs).filterMap fun c => c.args.2.data

/-- **Whole bytes in order.**  However the writers and the task are interleaved, and whatever the
    delays take within the tolerance of the chip, it reads exactly the bytes whose functions were
    called, each whole and once; those of a writer are in the order of its calls, and all of them
    when nothing is under way. -/
theorem bytes_received {self : Tid} {s : State Tid (Tid × Job)} {as : List (Act Tid (Tid × Job))}
    (h : Runs (step self) (Execs self) (initial Tid (Tid × Job)) as s) (ht : Tolerant slack start)
    {timed : List (Op × Nat)} (hops : timed.map Prod.fst = (called s).flatMap Job.ops)
    (htime : ∀ x ∈ timed, x.1.Takes slack x.2) :
    received start timed = (called s).filterMap Job.data ∧
      (∀ t, bytesOf t s.calls <+: bytesOf t s.pushed) ∧
      (s.midway = [] → s.queue = [] → s.front = none →
        ∀ t, bytesOf t s.calls = bytesOf t s.pushed) := by
  obtain ⟨horder, hdone⟩ := runs_inOrder h
  refine ⟨?_, fun t => (horder t).filterMap _, fun hmid hqueue hfront t => ?_⟩
  · rw [received, run_jobs ht rfl rfl (called s) hops htime]
    rfl
  · rw [bytesOf, bytesOf, hdone hmid hqueue hfront t]

/-- Two threads write a byte each, and enqueue their functions in the other order. -/
def exampleActs : List (Act Nat (Nat × Job)) :=
  [.push 1 0 (1, .write 0xa5), .push 2 1 (2, .write 7), .enqueue 2, .enqueue 1, .pop, .invoke,
    .pop, .invoke]

/-- The operation takes as long as it should. -/
def exact : Op → Op × Nat
  | .pinWrite level => (.pinWrite level, 0)
  | .mdelay ms      => (.mdelay ms, ms * 1000)
  | .usDelay us     => (.usDelay us, us)
  | .other          => (.other, 0)

theorem exact_takes (slack : Nat) (op : Op) :
    (exact op).1 = op ∧ (exact op).1.Takes slack (exact op).2 := by
  refine ⟨by cases op <;> rfl, ?_⟩
  cases op <;> simp only [exact, Op.Takes] <;> omega

theorem bytes_received_example :
    let s := (checkedRun (step 0) (Execs 0) (initial Nat (Nat × Job)) exampleActs).get (by decide)
    received 2000 (((called s).flatMap Job.ops).map exact) = [7, 0xa5] := by
  have hruns : (checkedRun (step 0) (Execs 0) (initial Nat (Nat × Job)) exampleActs).isSome := by
    decide
  have htolerant : Tolerant 10 2000 := ⟨by decide, by decide, by decide⟩
  have hops : ∀ ops : List Op, (ops.map exact).map Prod.fst = ops := fun ops => by
    rw [List.map_map]
    exact List.map_id'' (fun op => (exact_takes 0 op).1) ops
  have htimes : ∀ ops : List Op, ∀ x ∈ ops.map exact, x.1.Takes 10 x.2 := by
    intro ops x hx
    obtain ⟨op, -, rfl⟩ := List.mem_map.mp hx
    exact (exact_takes 10 op).2
  exact (bytes_received (runs_checked_get hruns) htolerant (hops _) (htimes _)).1

end RtCharger.Devices.Wtn6
