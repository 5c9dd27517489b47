import RtCharger.Lib.StepSystem
import RtCharger.Kernel.Semaphore
import RtCharger.Hal.SerialFifo
import RtCharger.Net.AtReadline

namespace RtCharger.Net.AtGetchar

open StepSystem RtCharger.Kernel RtCharger.Hal RtCharger.Utilities

/-!
# From the interrupt to the parser thread

The interrupt of the serial port stores the characters of the modem and gives a notice at its end
(`at_client_rx_ind`); the parser thread takes one character at a time in `at_client_getchar`, and
sleeps on the notice when there is none.  The steps of both are interleaved in any order.

* `State`, `step` — the two parties;
* `Inv`, `Inv.step` — the buffer is a queue between them, and no notice is missed;
* `chars_received`, `lines_received` — what the parser thread has when it sleeps.
-/

/-- Where the parser thread is in `at_client_getchar`. -/
inductive Pc where
  /-- About to call `rt_device_read`. -/
  | read
  /-- There was no data: about to call `rt_sem_take`. -/
  | take
  /-- Suspended in it. -/
  | waiting
  /-- About to call `rt_sem_control`. -/
  | reset
deriving DecidableEq, Repr

/-- The port, the parser thread, and what they have passed on. -/
structure State (α : Type) where
  fifo : RtSerialRxFifo α
  /-- `rx_notice`, which only the parser thread takes. -/
  rxNotice : RtSemaphore Unit
  /-- `rt_hw_serial_isr` is in its loop. -/
  isr : Bool
  pc : Pc
  /-- The characters that the interrupt got from the port. -/
  arrived : List α
  /-- The characters that `at_client_getchar` has returned. -/
  returned : List α
  /-- How often `_serial_check_buffer_size` was called. -/
  overruns : Nat

/-- The port is open and the thread started. -/
def initial {α : Type} (zero : α) : State α :=
  ⟨.open zero, rtSemCreate Unit, false, .read, [], [], 0⟩

inductive Action (α : Type) where
  /-- `getc` returns a character, in the interrupt. -/
  | char (ch : α)
  /-- `getc` returns -1: the interrupt ends with its notice. -/
  | indicate
  /-- The parser thread goes on. -/
  | parser
  /-- The time of the parser thread is over, and it calls `at_client_getchar` again later. -/
  | timeout
deriving DecidableEq, Repr

variable {α : Type}

/-- `at_client_rx_ind`, for the device of the client. -/
def atClientRxInd (s : State α) (size : Nat) : State α :=
  if 0 < size then
    match rtSemRelease s.rxNotice with
    | (_, rxNotice, some ()) => { s with rxNotice, pc := .reset }
    | (_, rxNotice, none)    => { s with rxNotice }
  else s

/-- The parser thread in `at_client_getchar`. -/
def atClientGetchar (bufsz : Nat) (s : State α) : Option (State α) :=
  match s.pc with
  | .read    =>
    match serialIntRx bufsz s.fifo with
    | none            => some { s with pc := .take }
    | some (ch, fifo) => some { s with fifo, returned := s.returned ++ [ch] }
  | .take    =>
    match rtSemTake s.rxNotice () with
    | (true, rxNotice)  => some { s with rxNotice, pc := .reset }
    | (false, rxNotice) => some { s with rxNotice, pc := .waiting }
  | .waiting => none
  -- `rt_sem_control` with `RT_IPC_CMD_RESET`; no other thread is suspended that it could resume
  | .reset   => some { s with rxNotice := ⟨0, []⟩, pc := .read }

def step (bufsz : Nat) (s : State α) : Action α → Option (State α)
  | .char ch  =>
    some { s with
      fifo := (s.fifo.store bufsz ch).1
      isr := true
      arrived := s.arrived ++ [ch]
      overruns := if (s.fifo.store bufsz ch).2 then s.overruns + 1 else s.overruns }
  | .indicate =>
    if s.isr then some { atClientRxInd s (s.fifo.rxLength bufsz) with isr := false } else none
  | .parser   => atClientGetchar bufsz s
  | .timeout  =>
    if s.pc = .waiting then
      (rtSemTimeout s.rxNotice ()).map fun rxNotice => { s with rxNotice, pc := .read }
    else none

/-! ### The invariant -/

/-- What the place of the parser thread says about the notice and the characters that wait. -/
def Noticed (bufsz : Nat) (s : State α) : Prop :=
  match s.pc with
  | .read | .reset => s.rxNotice.suspendThread = []
  | .take          => s.rxNotice.suspendThread = [] ∧
    (s.isr = true ∨ s.fifo.content bufsz = [] ∨ 0 < s.rxNotice.value)
  | .waiting       => s.rxNotice = ⟨0, [()]⟩ ∧ (s.isr = true ∨ s.fifo.content bufsz = [])

structure Inv (bufsz : Nat) (s : State α) : Prop where
  valid : s.fifo.Valid bufsz
  /-- Characters may be lost, but the order stays. -/
  order : (s.returned ++ s.fifo.content bufsz).Sublist s.arrived
  count : s.returned.length + (s.fifo.content bufsz).length + s.overruns = s.arrived.length
  noticed : Noticed bufsz s

variable {bufsz : Nat} {s s' : State α}

theorem inv_initial (hbuf : 1 < bufsz) (zero : α) : Inv bufsz (initial zero) := by
  obtain ⟨hvalid, hnil⟩ := valid_open hbuf zero
  refine ⟨hvalid, ?_, ?_, rfl⟩
  · show ([] ++ (RtSerialRxFifo.open zero).content bufsz).Sublist []
    rw [hnil, List.append_nil]
  · show 0 + ((RtSerialRxFifo.open zero).content bufsz).length + 0 = 0
    rw [hnil, List.length_nil]

/-- The interrupt stores a character. -/
theorem Inv.char (h : Inv bufsz s) {ch : α} (hstep : step bufsz s (.char ch) = some s') :
    Inv bufsz s' := by
  obtain ⟨hvalid, hstored⟩ := h.valid.store ch
  have hcount := h.count
  obtain rfl := Option.some.inj hstep
  have hnoticed : ∀ fifo : RtSerialRxFifo α, ∀ arrived overruns,
      Noticed bufsz { s with fifo, isr := true, arrived, overruns } := by
    intro fifo arrived overruns
    have hn := h.noticed
    unfold Noticed at hn ⊢
    cases hpc : s.pc <;> simp only [hpc] at hn ⊢
    · exact hn
    · exact ⟨hn.1, .inl trivial⟩
    · exact ⟨hn.1, .inl trivial⟩
    · exact hn
  split_ifs at hstored with hroom
  · obtain ⟨hover, hcontent⟩ := hstored
    refine ⟨hvalid, ?_, ?_, hnoticed _ _ _⟩
    · show (s.returned ++ (s.fifo.store bufsz ch).1.content bufsz).Sublist (s.arrived ++ [ch])
      rw [hcontent, ← List.append_assoc]
      exact h.order.append (List.Sublist.refl _)
    · show s.returned.length + ((s.fifo.store bufsz ch).1.content bufsz).length
        + (if (s.fifo.store bufsz ch).2 then s.overruns + 1 else s.overruns)
          = (s.arrived ++ [ch]).length
      simp only [hover, hcontent, List.length_append, List.length_singleton,
        Bool.false_eq_true, if_false]
      omega
  · obtain ⟨hover, hlen, hcontent⟩ := hstored
    have hone := h.valid.one_lt
    refine ⟨hvalid, ?_, ?_, hnoticed _ _ _⟩
    · show (s.returned ++ (s.fifo.store bufsz ch).1.content bufsz).Sublist (s.arrived ++ [ch])
      rw [hcontent, ← List.append_assoc]
      have htail := (List.tail_sublist (s.fifo.content bufsz)).append_left s.returned
      exact (htail.trans h.order).append (List.Sublist.refl _)
    · show s.returned.length + ((s.fifo.store bufsz ch).1.content bufsz).length
        + (if (s.fifo.store bufsz ch).2 then s.overruns + 1 else s.overruns)
          = (s.arrived ++ [ch]).length
      simp only [hover, hcontent, List.length_append, List.length_singleton, List.length_tail,
        if_true]
      omega

/-- The interrupt ends: the thread is resumed if it sleeps and there is something to read. -/
theorem Inv.indicate (h : Inv bufsz s) (hstep : step bufsz s .indicate = some s') :
    Inv bufsz s' := by
  simp only [step, Option.ite_none_right_eq_some, Option.some.injEq] at hstep
  obtain ⟨-, rfl⟩ := hstep
  have hn := h.noticed
  rw [rxLength_eq]
  by_cases hpos : 0 < (s.fifo.content bufsz).length
  · have hne : s.fifo.content bufsz ≠ [] := List.ne_nil_of_length_pos hpos
    unfold atClientRxInd
    rw [if_pos hpos]
    cases hsus : s.rxNotice.suspendThread with
    | nil =>
      obtain ⟨err, value, hrelease, hvalue⟩ := rtSemRelease_idle hsus
      rw [hrelease]
      refine ⟨h.valid, h.order, h.count, ?_⟩
      unfold Noticed at hn ⊢
      cases hpc : s.pc <;> simp only [hpc] at hn ⊢
      · exact ⟨trivial, .inr (.inr hvalue)⟩
      · rw [hn.1] at hsus
        cases hsus
    | cons t ts =>
      simp only [rtSemRelease, hsus]
      refine ⟨h.valid, h.order, h.count, ?_⟩
      -- only a thread that waits is suspended
      have hts : ts = [] := by
        unfold Noticed at hn
        cases hpc : s.pc <;> simp only [hpc] at hn
        · rw [hn] at hsus; cases hsus
        · rw [hn.1] at hsus; cases hsus
        · rw [hn.1] at hsus; cases hsus; rfl
        · rw [hn] at hsus; cases hsus
      exact hts
  · have hnil : s.fifo.content bufsz = [] := List.length_eq_zero_iff.mp (by omega)
    have hsame : atClientRxInd s (s.fifo.content bufsz).length = s := if_neg hpos
    rw [hsame]
    refine ⟨h.valid, h.order, h.count, ?_⟩
    unfold Noticed at hn ⊢
    cases hpc : s.pc <;> simp only [hpc] at hn ⊢
    · exact hn
    · exact ⟨hn.1, .inr (.inl hnil)⟩
    · exact ⟨hn.1, .inr hnil⟩
    · exact hn

/-- The parser thread goes on. -/
theorem Inv.parser (h : Inv bufsz s) (hstep : step bufsz s .parser = some s') :
    Inv bufsz s' := by
  have hn := h.noticed
  unfold step atClientGetchar at hstep
  unfold Noticed at hn
  cases hpc : s.pc with
  | read =>
    have hread := h.valid.serialIntRx
    simp only [hpc] at hstep hn
    split at hread
    · rename_i hnone
      rw [hnone] at hstep
      obtain rfl := Option.some.inj hstep
      exact ⟨h.valid, h.order, h.count, hn, .inr (.inl hread)⟩
    · rename_i ch fifo hsome
      rw [hsome] at hstep
      obtain rfl := Option.some.inj hstep
      obtain ⟨hvalid, hcontent⟩ := hread
      have horder := h.order
      have hcount := h.count
      rw [hcontent] at horder hcount
      refine ⟨hvalid, ?_, ?_, ?_⟩
      · rw [List.append_assoc]
        exact horder
      · simp only [List.length_append, List.length_cons, List.length_nil] at hcount ⊢
        omega
      · simpa only [Noticed, hpc] using hn
  | take =>
    simp only [hpc] at hstep hn
    obtain ⟨hsus, hwait⟩ := hn
    by_cases hval : 0 < s.rxNotice.value
    · simp only [rtSemTake, if_pos hval] at hstep
      obtain rfl := Option.some.inj hstep
      exact ⟨h.valid, h.order, h.count, hsus⟩
    · simp only [rtSemTake, if_neg hval] at hstep
      obtain rfl := Option.some.inj hstep
      refine ⟨h.valid, h.order, h.count, ?_, ?_⟩
      · show (⟨s.rxNotice.value, s.rxNotice.suspendThread ++ [()]⟩ : RtSemaphore Unit) = ⟨0, [()]⟩
        rw [hsus, Nat.eq_zero_of_not_pos hval]
        rfl
      · rcases hwait with hisr | hnil | hpos
        · exact .inl hisr
        · exact .inr hnil
        · exact absurd hpos hval
  | waiting =>
    simp only [hpc] at hstep
    cases hstep
  | reset =>
    simp only [hpc] at hstep
    obtain rfl := Option.some.inj hstep
    exact ⟨h.valid, h.order, h.count, rfl⟩

/-- **Every step keeps the invariant.** -/
theorem Inv.step (h : Inv bufsz s) {a : Action α} (hstep : AtGetchar.step bufsz s a = some s') :
    Inv bufsz s' := by
  cases a with
  | char ch => exact h.char hstep
  | indicate => exact h.indicate hstep
  | parser => exact h.parser hstep
  | timeout =>
    have hn := h.noticed
    simp only [AtGetchar.step, Option.ite_none_right_eq_some] at hstep
    obtain ⟨hpc, hstep⟩ := hstep
    simp only [Noticed, hpc] at hn
    simp only [hn.1, rtSemTimeout, List.mem_singleton, if_true, Option.map_some,
      Option.some.injEq] at hstep
    subst hstep
    exact ⟨h.valid, h.order, h.count, rfl⟩

theorem inv_of_runs (hbuf : 1 < bufsz) {zero : α} {as : List (Action α)}
    (h : Runs (AtGetchar.step bufsz) anyAction (initial zero) as s) : Inv bufsz s :=
  h.invariant (Inv bufsz) (fun _ _ _ hs _ hstep => hs.step hstep) (inv_initial hbuf zero)

/-! ### What the parser thread gets -/

/-- Without an overrun nothing is lost. -/
theorem Inv.arrived_eq (h : Inv bufsz s) (hzero : s.overruns = 0) :
    s.returned ++ s.fifo.content bufsz = s.arrived := by
  have hcount := h.count
  refine h.order.eq_of_length ?_
  rw [List.length_append]
  omega

/-- While the thread sleeps and no interrupt is under way, there is nothing to read. -/
theorem Inv.content_nil (h : Inv bufsz s) (hpc : s.pc = .waiting) (hisr : s.isr = false) :
    s.fifo.content bufsz = [] := by
  have hn := h.noticed
  simp only [Noticed, hpc] at hn
  rcases hn.2 with hbusy | hnil
  · rw [hisr] at hbusy
    cases hbusy
  · exact hnil

/-- **No character is missed.**  In every interleaving of the interrupt and the parser thread, the
    characters that the thread has and those that wait are the ones that arrived, in this order,
    without those that overran the buffer; and while the thread sleeps and no interrupt is under
    way there are none that wait. -/
theorem chars_received (hbuf : 1 < bufsz) {zero : α} {as : List (Action α)}
    (h : Runs (AtGetchar.step bufsz) anyAction (initial zero) as s) :
    (s.returned ++ s.fifo.content bufsz).Sublist s.arrived ∧
      s.returned.length + (s.fifo.content bufsz).length + s.overruns = s.arrived.length ∧
      (s.overruns = 0 → s.returned ++ s.fifo.content bufsz = s.arrived) ∧
      (s.pc = .waiting → s.isr = false → s.fifo.content bufsz = []) :=
  have hinv := inv_of_runs hbuf h
  ⟨hinv.order, hinv.count, hinv.arrived_eq, hinv.content_nil⟩

/-- A buffer of four cells: of five characters two are lost, and the thread is woken. -/
theorem chars_received_example :
    let s := (run (AtGetchar.step 4) (initial 'x')
      [.parser, .parser, .char 'a', .char 'b', .char 'c', .char 'd', .char 'e', .indicate, .parser,
        .parser]).get (by decide)
    s.overruns = 2 ∧ (s.returned ++ s.fifo.content 4).Sublist s.arrived :=
  ⟨by decide, (chars_received (by decide) (runs_get (by decide))).1⟩

variable {H : Type} {client : AtClient H}

/-- **No line is missed.**  If the buffer was never overrun, a parser thread that sleeps has the
    lines of all that the modem has sent: each text that was followed by a line break, whole or,
    if it does not fit into the buffer of the client, not at all. -/
theorem lines_received (hc : CrlfCodes client) (hbuf : 1 < bufsz) {zero : Char}
    {as : List (Action Char)} {s : State Char}
    (h : Runs (AtGetchar.step bufsz) anyAction (initial zero) as s) (hzero : s.overruns = 0)
    (hpc : s.pc = .waiting) (hisr : s.isr = false) {bodies : List Text} {rest : Text}
    (hbodies : ∀ body ∈ bodies, ¬kEndl <:+: body) (hrest : ¬kEndl <:+: rest)
    (hsent : s.arrived = (bodies.map (· ++ kEndl)).flatten ++ rest) :
    readLines client s.returned
      = (bodies.map fun body => received client (body ++ kEndl), rest) := by
  have hinv := inv_of_runs hbuf h
  have hall : s.returned = s.arrived := by
    rw [← hinv.arrived_eq hzero, hinv.content_nil hpc hisr, List.append_nil]
  rw [hall, hsent]
  exact readLines_crlf hc hbodies hrest

/-- The thread sleeps, `OK` arrives and wakes it, and it sleeps again. -/
theorem lines_received_example :
    let s := (run (AtGetchar.step 64) (initial nul)
      ([.parser, .parser] ++ [.char 'O', .char 'K', .char '\r', .char '\n', .indicate] ++
        List.replicate 7 .parser)).get (by decide)
    readLines (⟨64, nul, []⟩ : AtClient Nat) s.returned = ([.ok ['O', 'K', '\r', '\n']], []) :=
  lines_received ⟨rfl, by simp⟩ (by decide) (runs_get (by decide)) (by decide) (by decide)
    (by decide) (show ∀ body ∈ [['O', 'K']], ¬kEndl <:+: body by decide)
    (show ¬kEndl <:+: ([] : Text) by decide) (by decide)

end RtCharger.Net.AtGetchar
