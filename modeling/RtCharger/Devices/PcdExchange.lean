import RtCharger.Devices.Rc522
import RtCharger.Lib.RegisterBus

namespace RtCharger.Devices.Pcd

open Effect RegisterBus

/-!
# One exchange with the card reader

`pcdComMF522` gives a command to the chip, polls its interrupt register, and says how the command
ended.  It finds out which condition ended the polling from the counter of the loop alone.

* `pcdComMF522` — the exchange, with the scope guard that stops the chip;
* `run_pcdComMF522` — what it returns, by the number of polls;
* `Classified` — what the answers of the chip call for;
* `classified_iff` — it is returned unless the chip is done just at the last poll.
-/

/-- The registers that the driver uses. -/
inductive Regs where
  | Command
  | ComIEn
  | ComIrq
  | Error
  | Status2
  | FIFOData
  | FIFOLevel
  | Control
  | BitFraming
  | Coll
  | Mode
  | TxControl
  | TxAuto
  | RxSel
  | RFCfg
  | TMode
  | TPrescaler
  | TReloadH
  | TReloadL
deriving DecidableEq, Repr

/-- `PcdCmds`. -/
inductive PcdCmds where
  | Idle
  | Authent
  | Receive
  | Transmit
  | Transceive
  | ResetPhase
  | CalcCRC
deriving DecidableEq, Repr

/-- The code of a command. -/
def PcdCmds.code : PcdCmds → UInt8
  | .Idle       => 0x00
  | .Authent    => 0x0e
  | .Receive    => 0x08
  | .Transmit   => 0x04
  | .Transceive => 0x0c
  | .ResetPhase => 0x0f
  | .CalcCRC    => 0x03

/-- The accesses of the driver. -/
abbrev ChipLog : Type := Log Regs UInt8

/-- The chip, or what answers in its place. -/
abbrev Chip : Type := Bus Regs UInt8

/-- What the driver does. -/
abbrev Drive (α : Type) : Type := Comp Exn ChipLog α

/-- `Reg::operator&=`. -/
def andAssign (bus : Chip) (r : Regs) (right : UInt8) : Drive Unit :=
  modify bus r fun value => value &&& right

/-- `Reg::operator|=`. -/
def orAssign (bus : Chip) (r : Regs) (right : UInt8) : Drive Unit :=
  modify bus r fun value => value ||| right

/-! ### The exchange -/

/-- `irqEn`. -/
def irqEn : PcdCmds → UInt8
  | .Authent    => 0x12
  | .Transceive => 0x77
  | _           => 0

/-- `waitFor`. -/
def waitFor : PcdCmds → UInt8
  | .Authent    => 0x10
  | .Transceive => 0x30
  | _           => 0

/-- `(irqVal & 0x01) || (irqVal & waitFor)`: the loop ends. -/
def done (cmd : PcdCmds) (irqVal : UInt8) : Bool :=
  irqVal &&& 0x01 != 0 || irqVal &&& waitFor cmd != 0

/-- `pcdComMF522` up to the guard. -/
def send (bus : Chip) (cmd : PcdCmds) (input : List UInt8) : Drive Unit := do
  write .ComIEn (irqEn cmd ||| 0x80)
  andAssign bus .ComIrq (~~~0x80)
  write .Command PcdCmds.Idle.code
  orAssign bus .FIFOLevel 0x80
  forEach input fun data => write .FIFOData data
  write .Command cmd.code

/-- The deleter of `guard`. -/
def stopChip (bus : Chip) : Drive Unit := do
  orAssign bus .Control 0x80
  write .Command PcdCmds.Idle.code

/-- `if(cmd == PcdCmds::Transceive) { … }` in front of the loop. -/
def startSend (bus : Chip) (cmd : PcdCmds) : Drive Unit :=
  if cmd = .Transceive then orAssign bus .BitFraming 0x80 else pure ()

/-- `if(n2Recv == 0) n2Recv = 1;`, where `n2Recv` is the register itself. -/
def raiseLevel (bus : Chip) : Drive Unit := do
  let n2Recv ← read bus .FIFOLevel
  if n2Recv = 0 then write .FIFOLevel 1 else pure ()

/-- What was received, `out` and `totalBits`.  `n2Recv` is no number but the register: each use
    of it is an access of its own. -/
def receive (bus : Chip) (cmd : PcdCmds) : Drive (List UInt8 × Int) :=
  if cmd = .Transceive then do
    let lastBits := (← read bus .Control) &&& 0x07
    let n2Recv ← read bus .FIFOLevel
    let totalBits : Int :=
      if lastBits = 0 then n2Recv.toNat * 8 else lastBits.toNat + (n2Recv.toNat - 1) * 8
    raiseLevel bus
    let n2Recv ← read bus .FIFOLevel
    let out ← readN bus .FIFOData n2Recv.toNat
    pure (out, totalBits)
  else pure ([], 0)

/-- What `pcdComMF522` returns: the code, and the data if there are any. -/
abbrev Reply : Type := RetVal × Option (List UInt8 × Int)

/-- The end of `pcdComMF522`, where `count` is what the loop has left of its counter. -/
def finish (bus : Chip) (cmd : PcdCmds) (irqVal : UInt8) (count : Nat) : Drive Reply :=
  if count = 0 then pure (.etimeout, none)
  else do
    let error ← read bus .Error
    if error &&& 0x1b != 0 then pure (.error, none)
    else do
      let retVal := if irqVal &&& irqEn cmd &&& 0x01 != 0 then RetVal.eio else RetVal.eok
      let received ← receive bus cmd
      pure (retVal, some received)

/-- `pcdComMF522`. -/
def pcdComMF522 (bus : Chip) (cmd : PcdCmds) (input : List UInt8) : Drive Reply := do
  send bus cmd input
  inScope (stopChip bus) do
    startSend bus cmd
    -- `count` starts with 1000 and is counted down before it is tested
    let (irqVal, count) ← poll bus .ComIrq (done cmd) 999
    andAssign bus .BitFraming (~~~0x80)
    finish bus cmd irqVal count

/-! ### How much it does -/

section Bounds

variable {ok : Access Regs UInt8 → Prop} (bus : Chip) (cmd : PcdCmds)

theorem does_send (h : ∀ x, ok x) (input : List UInt8) :
    Does ok (7 + input.length) (send bus cmd input) := by
  have hdata := does_forEach (ε := Exn) (fun data => does_write (h (.write .FIFOData data))) input
  refine Does.mono (Does.bind (does_write (h _)) fun _ =>
    (does_modify (fun _ => h _) fun _ => h _).bind fun _ =>
    (does_write (h _)).bind fun _ =>
    (does_modify (fun _ => h _) fun _ => h _).bind fun _ =>
    hdata.bind fun _ => does_write (h _)) ?_
  omega

theorem does_startSend (h : ∀ v, ok (.read .BitFraming v)) (h' : ∀ v, ok (.write .BitFraming v)) :
    Does ok 2 (startSend bus cmd) := by
  unfold startSend
  apply Does.ite
  · exact fun _ => does_modify h h'
  · exact fun _ => (does_pure ()).mono (Nat.zero_le _)

theorem does_receive (hcontrol : ∀ v, ok (.read .Control v)) (hlevel : ∀ v, ok (.read .FIFOLevel v))
    (hwrite : ok (.write .FIFOLevel 1)) (hdata : ∀ v, ok (.read .FIFOData v)) :
    Does ok 260 (receive bus cmd) := by
  have hdataN : ∀ n2Recv : UInt8, Does ok 255 (readN bus .FIFOData n2Recv.toNat : Drive _) :=
    fun n2Recv => (does_readN hdata _).mono (Nat.le_of_lt_succ n2Recv.toNat_lt)
  have hraise : Does ok 2 (raiseLevel bus) := by
    refine Does.bind (m := 1) (does_read hlevel) fun n2Recv => ?_
    apply Does.ite
    · exact fun _ => does_write hwrite
    · exact fun _ => (does_pure ()).mono (Nat.zero_le _)
  unfold receive
  apply Does.ite
  · intro _
    refine Does.mono ((does_read hcontrol).bind fun _ => (does_read hlevel).bind fun _ =>
      hraise.bind fun _ =>
      (does_read hlevel).bind fun n2Recv => (hdataN n2Recv).bind fun _ => does_pure _) ?_
    omega
  · exact fun _ => (does_pure _).mono (Nat.zero_le _)

theorem does_finish (herror : ∀ v, ok (.read .Error v)) (hcontrol : ∀ v, ok (.read .Control v))
    (hlevel : ∀ v, ok (.read .FIFOLevel v)) (hwrite : ok (.write .FIFOLevel 1))
    (hdata : ∀ v, ok (.read .FIFOData v)) (irqVal : UInt8) (count : Nat) :
    Does ok 261 (finish bus cmd irqVal count) := by
  unfold finish
  apply Does.ite
  · exact fun _ => (does_pure _).mono (Nat.zero_le _)
  · intro _
    refine Does.bind (m := 260) (does_read herror) fun error => ?_
    apply Does.ite
    · exact fun _ => (does_pure _).mono (Nat.zero_le _)
    · exact fun _ => (does_receive bus cmd hcontrol hlevel hwrite hdata).bind fun _ => does_pure _

theorem does_stopChip (hread : ∀ v, ok (.read .Control v)) (hwrite : ∀ v, ok (.write .Control v))
    (hidle : ok (.write .Command PcdCmds.Idle.code)) : Does ok 3 (stopChip bus) :=
  (does_modify hread hwrite).bind fun _ => does_write hidle

/-- **An exchange** returns after at most so many accesses, whatever the chip answers. -/
theorem does_pcdComMF522 (h : ∀ x, ok x) (input : List UInt8) :
    Does ok (1275 + input.length) (pcdComMF522 bus cmd input) := by
  have hstart : Does ok 2 (startSend bus cmd) := does_startSend bus cmd (fun _ => h _) fun _ => h _
  have hpoll : Does ok 1000 (poll bus .ComIrq (done cmd) 999 : Drive _) :=
    does_poll (fun _ => h _) 999
  have hclear : Does ok 2 (andAssign bus .BitFraming (~~~0x80)) :=
    does_modify (fun _ => h _) fun _ => h _
  have hbody := hstart.bind fun _ => hpoll.bind fun r => hclear.bind fun _ =>
    does_finish bus cmd (fun _ => h _) (fun _ => h _) (fun _ => h _) (h _) (fun _ => h _) r.1 r.2
  have hscope := hbody.inScope (does_stopChip bus (fun _ => h _) (fun _ => h _) (h _))
  refine Does.mono ((does_send bus cmd h input).bind fun _ => hscope) ?_
  omega

end Bounds

/-! ### What it returns -/

/-- The code that `pcdComMF522` makes of the last interrupt flags, of the counter and of the error
    flags. -/
def code (cmd : PcdCmds) (irqVal : UInt8) (count : Nat) (error : UInt8) : RetVal :=
  if count = 0 then .etimeout
  else if error &&& 0x1b != 0 then .error
  else if irqVal &&& irqEn cmd &&& 0x01 != 0 then .eio
  else .eok

section Run

variable (bus : Chip) (cmd : PcdCmds) (input : List UInt8) (l : ChipLog)

/-- The log at the beginning of the loop. -/
def armed : ChipLog := ((startSend bus cmd).run ((send bus cmd input).run l).2).2

/-- The value of `ComIrq` after `k` polls. -/
def irqAt (k : Nat) : UInt8 := answer bus .ComIrq (armed bus cmd input l) k

/-- The log after `n` polls and `BitFraming &= ~0x80`. -/
def cleared (n : Nat) : ChipLog :=
  let polled := readsLog bus .ComIrq (armed bus cmd input l) n
  polled ++ [.read .BitFraming (bus polled .BitFraming),
    .write .BitFraming (bus polled .BitFraming &&& ~~~0x80)]

/-- The value of `Error` then. -/
def errorAt (n : Nat) : UInt8 := bus (cleared bus cmd input l n) .Error

/-- The log after the guard. -/
def stopped : ChipLog :=
  l ++ [.read .Control (bus l .Control), .write .Control (bus l .Control ||| 0x80),
    .write .Command PcdCmds.Idle.code]

/-- The accesses behind the loop neither poll the interrupt flags nor write to `BitFraming`. -/
def BehindLoop (x : Access Regs UInt8) : Prop :=
  x.readFrom .ComIrq = none ∧ x.writtenTo .BitFraming = none

theorem run_stopChip : (stopChip bus).run l = (.returned (), stopped bus l) := by
  rw [stopChip, orAssign, run_bind_returned (run_modify _ _ _ _), run_write, stopped,
    List.append_assoc]
  rfl

/-- The guard neither polls nor sends, and does not touch the FIFO. -/
theorem exists_stopped : ∃ new, stopped bus l = l ++ new ∧
    ∀ x ∈ new, BehindLoop x ∧ x.writtenTo .FIFOLevel = none := by
  refine ⟨_, rfl, ?_⟩
  intro x hx
  simp only [List.mem_cons, List.not_mem_nil, or_false] at hx
  rcases hx with rfl | rfl | rfl <;> exact ⟨⟨rfl, rfl⟩, rfl⟩

/-- What comes before the loop returns. -/
theorem run_armed :
    (send bus cmd input).run l = (.returned (), ((send bus cmd input).run l).2) ∧
      (startSend bus cmd).run ((send bus cmd input).run l).2
        = (.returned (), armed bus cmd input l) := by
  have hdoes : Does (fun _ => True) _ (send bus cmd input) :=
    does_send bus cmd (fun _ => trivial) input
  have hdoes' : Does (fun _ => True) _ (startSend bus cmd) :=
    does_startSend bus cmd (fun _ => trivial) fun _ => trivial
  obtain ⟨⟨⟩, new, hsend, -, -⟩ := hdoes l
  obtain ⟨⟨⟩, new', hstart, -, -⟩ := hdoes' (l ++ new)
  constructor
  · rw [hsend]
  · rw [armed, hsend, hstart]

/-- What is received behind the loop. -/
theorem run_receive : ∃ received new, (receive bus cmd).run l = (.returned received, l ++ new) ∧
    ∀ x ∈ new, BehindLoop x := by
  have hdoes : Does BehindLoop _ (receive bus cmd) := does_receive bus cmd
    (fun _ => ⟨rfl, rfl⟩) (fun _ => ⟨rfl, rfl⟩) ⟨rfl, rfl⟩ fun _ => ⟨rfl, rfl⟩
  obtain ⟨received, new, hrun, -, hok⟩ := hdoes l
  exact ⟨received, new, hrun, hok⟩

/-- The end of an exchange in which something was received. -/
theorem run_finish_received (irqVal : UInt8) {count : Nat} (hcount : count ≠ 0)
    (herror : bus l .Error &&& 0x1b = 0) {received : List UInt8 × Int} {l' : ChipLog}
    (hrun : (receive bus cmd).run (l ++ [.read .Error (bus l .Error)])
      = (.returned received, l')) :
    (finish bus cmd irqVal count).run l
      = (.returned (code cmd irqVal count (bus l .Error), some received), l') := by
  have hnot : ¬ (bus l .Error &&& 0x1b != 0) = true := by simp [herror]
  rw [finish, code, if_neg hcount, if_neg hcount, run_bind_returned (run_read _ _ _),
    if_neg hnot, if_neg hnot]
  simp only [run_bind_returned hrun, run_pure]

/-- **The end** of an exchange: the code, and something only if there was no error. -/
theorem run_finish (irqVal : UInt8) (count : Nat) :
    ∃ info new, (finish bus cmd irqVal count).run l
        = (.returned (code cmd irqVal count (bus l .Error), info), l ++ new) ∧
      ∀ x ∈ new, BehindLoop x := by
  by_cases hcount : count = 0
  · refine ⟨none, [], ?_, fun x hx => nomatch hx⟩
    rw [finish, code, if_pos hcount, if_pos hcount, List.append_nil, run_pure]
  by_cases herror : bus l .Error &&& 0x1b = 0
  · obtain ⟨received, new, hreceive, hnew⟩ :=
      run_receive bus cmd (l ++ [.read .Error (bus l .Error)])
    have hrun := run_finish_received bus cmd l irqVal hcount herror hreceive
    rw [List.append_assoc, List.singleton_append] at hrun
    refine ⟨some received, _, hrun, ?_⟩
    intro x hx
    rcases List.mem_cons.mp hx with rfl | hmem
    · exact ⟨rfl, rfl⟩
    · exact hnew x hmem
  · refine ⟨none, [.read .Error (bus l .Error)], ?_, ?_⟩
    · have hbits : (bus l .Error &&& 0x1b != 0) = true := bne_iff_ne.mpr herror
      rw [finish, code, if_neg hcount, if_neg hcount, run_bind_returned (run_read _ _ _),
        if_pos hbits, if_pos hbits, run_pure]
    · intro x hx
      rw [List.mem_singleton.mp hx]
      exact ⟨rfl, rfl⟩

/-- **An exchange**: some number of polls, the first of which that says so ends the loop, unless
    the thousandth does; then the end, and the guard. -/
theorem run_pcdComMF522 :
    ∃ k ≤ 999, (∀ j < k, done cmd (irqAt bus cmd input l j) = false) ∧
      (done cmd (irqAt bus cmd input l k) = true ∨ k = 999) ∧
      ∃ ret info new, ret = code cmd (irqAt bus cmd input l k) (999 - k)
          (errorAt bus cmd input l (k + 1)) ∧
        (finish bus cmd (irqAt bus cmd input l k) (999 - k)).run (cleared bus cmd input l (k + 1))
          = (.returned (ret, info), cleared bus cmd input l (k + 1) ++ new) ∧
        (pcdComMF522 bus cmd input).run l
          = (.returned (ret, info), stopped bus (cleared bus cmd input l (k + 1) ++ new)) ∧
        ∀ x ∈ new, BehindLoop x := by
  obtain ⟨hsend, hstart⟩ := run_armed bus cmd input l
  obtain ⟨k, hk, hbefore, hend, hpoll⟩ :=
    run_poll (ε := Exn) bus .ComIrq (done cmd) 999 (armed bus cmd input l)
  obtain ⟨info, new, hfinish, hnew⟩ :=
    run_finish bus cmd (cleared bus cmd input l (k + 1)) (irqAt bus cmd input l k) (999 - k)
  refine ⟨k, hk, hbefore, hend, _, info, new, rfl, hfinish, ?_, hnew⟩
  rw [pcdComMF522, run_bind_returned hsend]
  refine run_inScope_returned ?_ (run_stopChip bus _)
  rw [run_bind_returned hstart, run_bind_returned hpoll]
  dsimp only
  rw [andAssign, run_bind_returned (run_modify _ _ _ _)]
  exact hfinish

/-! ### What the answers call for -/

/-- The values of `ComIrq` that the loop read, by the log at the end. -/
def polled (l' : ChipLog) : List UInt8 :=
  (reads .ComIrq l').drop (reads .ComIrq (armed bus cmd input l)).length

/-- The chip is done when it is polled for the thousandth time, and not before. -/
def LastMoment : Prop :=
  (∀ j < 999, done cmd (irqAt bus cmd input l j) = false) ∧
    done cmd (irqAt bus cmd input l 999) = true

/-- The exchange, by what was polled. -/
theorem run_polled :
    ∃ k ≤ 999, (∀ j < k, done cmd (irqAt bus cmd input l j) = false) ∧
      (done cmd (irqAt bus cmd input l k) = true ∨ k = 999) ∧
      ∃ info l', (pcdComMF522 bus cmd input).run l
          = (.returned (code cmd (irqAt bus cmd input l k) (999 - k)
              (errorAt bus cmd input l (k + 1)), info), l') ∧
        polled bus cmd input l l' = (List.range (k + 1)).map (irqAt bus cmd input l) := by
  obtain ⟨k, hk, hbefore, hend, _, info, new, rfl, -, hrun, hnew⟩ :=
    run_pcdComMF522 bus cmd input l
  refine ⟨k, hk, hbefore, hend, info, _, hrun, ?_⟩
  have hcleared : reads .ComIrq (cleared bus cmd input l (k + 1) ++ new)
      = reads .ComIrq (readsLog bus .ComIrq (armed bus cmd input l) (k + 1)) := by
    rw [reads_append_of_none fun x hx => (hnew x hx).1, cleared, reads_append_of_none]
    intro x hx
    rcases List.mem_pair.mp hx with rfl | rfl <;> rfl
  have hstopped : ∀ l', reads .ComIrq (stopped bus l') = reads .ComIrq l' := by
    intro l'
    obtain ⟨stop, hlog, hstop⟩ := exists_stopped bus l'
    rw [hlog, reads_append_of_none fun x hx => (hstop x hx).1.1]
  rw [polled, hstopped, hcleared, reads_readsLog, List.drop_left]
  rfl

end Run

/-- The last of the values has an enabled timer bit. -/
def TimerRan (cmd : PcdCmds) (vs : List UInt8) : Prop :=
  ∃ v, vs.getLast? = some v ∧ v &&& irqEn cmd &&& 0x01 ≠ 0

/-- **The classification** of an exchange in which `vs` was polled: it timed out if none of the
    values ends the loop; otherwise the error flags decide, and then the timer. -/
structure Classified (cmd : PcdCmds) (vs : List UInt8) (error : UInt8) (ret : RetVal) : Prop where
  timedOut : ret = .etimeout ↔ ∀ v ∈ vs, done cmd v = false
  failed : (∃ v ∈ vs, done cmd v = true) → error &&& 0x1b ≠ 0 → ret = .error
  timer : (∃ v ∈ vs, done cmd v = true) → error &&& 0x1b = 0 → TimerRan cmd vs → ret = .eio
  ok : (∃ v ∈ vs, done cmd v = true) → error &&& 0x1b = 0 → ¬ TimerRan cmd vs → ret = .eok

/-- What was polled, when the loop ended before its last round. -/
theorem classified_code {cmd : PcdCmds} {irq : Nat → UInt8} {k : Nat} (hk : k < 999)
    (hdone : done cmd (irq k) = true) (error : UInt8) :
    Classified cmd ((List.range (k + 1)).map irq) error (code cmd (irq k) (999 - k) error) := by
  have hcount : ¬ 999 - k = 0 := by omega
  have hmem : irq k ∈ (List.range (k + 1)).map irq :=
    List.mem_map_of_mem (List.mem_range.mpr (Nat.lt_succ_self k))
  have htimer : TimerRan cmd ((List.range (k + 1)).map irq)
      ↔ (irq k &&& irqEn cmd &&& 0x01 != 0) = true := by
    rw [List.range_succ, List.map_append, TimerRan, List.map_singleton, List.getLast?_concat,
      bne_iff_ne]
    constructor
    · rintro ⟨v, hv, hbit⟩
      obtain rfl := Option.some.inj hv
      exact hbit
    · exact fun hbit => ⟨irq k, rfl, hbit⟩
  unfold code
  rw [if_neg hcount]
  refine ⟨?_, ?_, ?_, ?_⟩
  · constructor
    · intro hret
      split_ifs at hret
    · intro hnone
      rw [hnone _ hmem] at hdone
      cases hdone
  · intro _ herror
    rw [if_pos (bne_iff_ne.mpr herror)]
  · intro _ herror hran
    rw [if_neg (by simp [herror]), if_pos (htimer.mp hran)]
  · intro _ herror hran
    rw [if_neg (by simp [herror]), if_neg (fun h => hran (htimer.mpr h))]

/-- What was polled, when nothing ended the loop. -/
theorem classified_timeout {cmd : PcdCmds} {vs : List UInt8} (h : ∀ v ∈ vs, done cmd v = false)
    (error : UInt8) : Classified cmd vs error .etimeout := by
  have hnone : ¬ ∃ v ∈ vs, done cmd v = true := by
    rintro ⟨v, hv, hdone⟩
    rw [h v hv] at hdone
    cases hdone
  exact ⟨⟨fun _ => h, fun _ => rfl⟩, fun hex => absurd hex hnone, fun hex => absurd hex hnone,
    fun hex => absurd hex hnone⟩

/-- **Completion is classified exactly**, unless the chip is done when it is polled for the
    thousandth time and not before: that is taken for a time-out. -/
theorem classified_iff (bus : Chip) (cmd : PcdCmds) (input : List UInt8) (l : ChipLog) :
    ∃ ret info l', (pcdComMF522 bus cmd input).run l = (.returned (ret, info), l') ∧
      (polled bus cmd input l l').length ≤ 1000 ∧
      (Classified cmd (polled bus cmd input l l')
          (errorAt bus cmd input l (polled bus cmd input l l').length) ret ↔
        ¬ LastMoment bus cmd input l) := by
  obtain ⟨k, hk, hbefore, hend, info, l', hrun, hpolled⟩ := run_polled bus cmd input l
  have hlen : (polled bus cmd input l l').length = k + 1 := by
    rw [hpolled, List.length_map, List.length_range]
  refine ⟨_, info, l', hrun, by omega, ?_⟩
  rw [hlen, hpolled]
  rcases Nat.lt_or_eq_of_le hk with hlt | rfl
  · have hdone := hend.resolve_right (Nat.ne_of_lt hlt)
    refine ⟨fun _ hlast => ?_, fun _ => classified_code hlt hdone _⟩
    rw [hlast.1 k hlt] at hdone
    cases hdone
  · -- the counter is down to 0, whatever the last value is
    show Classified cmd _ _ .etimeout ↔ _
    constructor
    · intro hclass hlast
      have hmem : irqAt bus cmd input l 999 ∈ (List.range 1000).map (irqAt bus cmd input l) :=
        List.mem_map_of_mem (List.mem_range.mpr (by omega))
      have hnot := hclass.timedOut.mp rfl _ hmem
      rw [hlast.2] at hnot
      cases hnot
    · intro hlast
      apply classified_timeout
      intro v hv
      obtain ⟨j, hj, rfl⟩ := List.mem_map.mp hv
      have hj := List.mem_range.mp hj
      rcases Nat.lt_or_eq_of_le (Nat.le_of_lt_succ hj) with hlt | rfl
      · exact hbefore j hlt
      · exact Bool.eq_false_iff.mpr fun hdone => hlast ⟨hbefore, hdone⟩

/-- A chip that is done at the thousandth poll; `ComIrq` is read once before the loop. -/
def lateChip : Chip := fun l r => if r = .ComIrq ∧ (reads .ComIrq l).length = 1000 then 0x30 else 0

theorem done_at_last_poll :
    ∃ info l', (pcdComMF522 lateChip .Transceive [0x93, 0x20]).run []
        = (.returned (.etimeout, info), l') ∧
      ∀ error, ¬ Classified .Transceive (polled lateChip .Transceive [0x93, 0x20] [] l') error
        .etimeout := by
  have hirq : ∀ j, irqAt lateChip .Transceive [0x93, 0x20] [] j = if j = 999 then 0x30 else 0 := by
    intro j
    have hlen : (reads .ComIrq (readsLog lateChip .ComIrq
        (armed lateChip .Transceive [0x93, 0x20] []) j)).length = 1 + j := by
      rw [reads_readsLog, List.length_append, List.length_map, List.length_range]
      rfl
    rw [irqAt, answer, lateChip, hlen]
    by_cases hj : j = 999
    · rw [if_pos hj, hj]
      rfl
    · rw [if_neg hj, if_neg fun h => hj (by omega)]
  obtain ⟨k, hk, -, hend, info, l', hrun, hpolled⟩ :=
    run_polled lateChip .Transceive [0x93, 0x20] []
  obtain rfl : k = 999 := by
    rcases hend with hdone | rfl
    · rw [hirq] at hdone
      by_contra hne
      rw [if_neg hne] at hdone
      exact absurd hdone (by decide)
    · rfl
  refine ⟨info, l', hrun, fun error hclass => ?_⟩
  have hmem : (0x30 : UInt8) ∈ polled lateChip .Transceive [0x93, 0x20] [] l' := by
    rw [hpolled]
    refine List.mem_map.mpr ⟨999, List.mem_range.mpr (by decide), ?_⟩
    rw [hirq, if_pos rfl]
  exact absurd (hclass.timedOut.mp rfl _ hmem) (by decide)

end RtCharger.Devices.Pcd
