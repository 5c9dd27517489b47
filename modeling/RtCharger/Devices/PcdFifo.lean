import RtCharger.Devices.PcdExchange

namespace RtCharger.Devices.Pcd

open Effect RegisterBus

/-!
# The FIFO of the card reader

`pcdComMF522` takes the number of received bytes from `FIFOLevel`.  Its variable `n2Recv` is the
register and not its value, so that every use of it reads the register and the assignment of 1
to it, which is meant for a card that sent nothing, is a write to the register.

* `Answers` — the chip has received some bytes and gives them back in order;
* `run_receive_fifo` — what is made of them, and what is written to `FIFOLevel`;
* `received_iff` — this is what the caller expects if at least one byte was received.
-/

/-! ### Reads of the FIFO since the command -/

/-- The accesses since the last command, latest first. -/
def sinceCommand (l : ChipLog) : ChipLog :=
  l.reverse.takeWhile fun x => (x.writtenTo .Command).isNone

/-- How many bytes were taken from the FIFO since the last command. -/
def dataReads (l : ChipLog) : Nat :=
  (sinceCommand l).countP fun x => (x.readFrom .FIFOData).isSome

/-- `Transceive` was the last command, and `d` bytes were taken from the FIFO since then. -/
def Taken (l : ChipLog) (d : Nat) : Prop :=
  lastWrite .Command l = some PcdCmds.Transceive.code ∧ dataReads l = d

/-- Neither a command nor a read of the FIFO. -/
def Aside (x : Access Regs UInt8) : Prop :=
  x.writtenTo .Command = none ∧ x.readFrom .FIFOData = none

/-- **A chip with bytes in its FIFO**: after a command `FIFOLevel` is their number until they are
    read, each read of `FIFOData` takes the next of them, and `Control` holds the number of valid
    bits in the last one. -/
structure Answers (bus : Chip) (fifo : List UInt8) (lastBits : UInt8) : Prop where
  level : ∀ l, Taken l 0 → (bus l .FIFOLevel).toNat = fifo.length
  data : ∀ l d v, Taken l d → fifo[d]? = some v → bus l .FIFOData = v
  control : ∀ l, bus l .Control &&& 0x07 = lastBits

theorem Taken.command (l : ChipLog) :
    Taken (l ++ [.write .Command PcdCmds.Transceive.code]) 0 := by
  constructor
  · exact lastWrite_snoc_write _ _ _
  · simp [dataReads, sinceCommand, Access.writtenTo]

theorem Taken.snoc {l : ChipLog} {d : Nat} (h : Taken l d) {x : Access Regs UInt8}
    (hx : Aside x) : Taken (l ++ [x]) d := by
  obtain ⟨hlast, hreads⟩ := h
  constructor
  · rw [lastWrite_append_of_none _ l, hlast]
    intro y hy
    rw [List.mem_singleton.mp hy]
    exact hx.1
  · rw [← hreads, dataReads, sinceCommand, List.reverse_append, List.reverse_singleton,
      List.singleton_append, List.takeWhile_cons, hx.1]
    simp [hx.2, dataReads, sinceCommand]

/-- Other accesses change nothing. -/
theorem Taken.append {l : ChipLog} {d : Nat} (h : Taken l d) {new : ChipLog}
    (hnew : ∀ x ∈ new, Aside x) : Taken (l ++ new) d := by
  induction new generalizing l with
  | nil => rwa [List.append_nil]
  | cons x xs ih =>
    rw [← List.singleton_append, ← List.append_assoc]
    apply ih (h.snoc (hnew x List.mem_cons_self))
    exact fun y hy => hnew y (List.mem_cons_of_mem x hy)

/-- A read of the FIFO takes a byte. -/
theorem Taken.read {l : ChipLog} {d : Nat} (h : Taken l d) (v : UInt8) :
    Taken (l ++ [.read .FIFOData v]) (d + 1) := by
  obtain ⟨hlast, hreads⟩ := h
  constructor
  · rw [lastWrite_append_of_none _ l, hlast]
    intro y hy
    rw [List.mem_singleton.mp hy]
    rfl
  · rw [← hreads]
    simp [dataReads, sinceCommand, Access.writtenTo, Access.readFrom]

/-! ### Receiving -/

/-- `totalBits`. -/
def totalBits (n : Nat) (lastBits : UInt8) : Int :=
  if lastBits = 0 then n * 8 else lastBits.toNat + (n - 1) * 8

section Receive

variable {bus : Chip} {fifo : List UInt8} {lastBits : UInt8}

/-- The rest of the FIFO is read. -/
theorem run_readN_fifo (hans : Answers bus fifo lastBits) (k : Nat) {l : ChipLog} {d : Nat}
    (h : Taken l d) (hk : d + k = fifo.length) :
    ∃ new, (readN bus .FIFOData k : Drive _).run l = (.returned (fifo.drop d), l ++ new) ∧
      writes .FIFOLevel new = [] := by
  induction k generalizing l d with
  | zero =>
    refine ⟨[], ?_, rfl⟩
    rw [List.drop_eq_nil_of_le (by omega), List.append_nil]
    rfl
  | succ k ih =>
    have hd : d < fifo.length := by omega
    have hdata : bus l .FIFOData = fifo[d] := hans.data l d _ h (List.getElem?_eq_getElem hd)
    obtain ⟨new, hrun, hnew⟩ := ih (h.read (bus l .FIFOData)) (by omega)
    refine ⟨.read .FIFOData (bus l .FIFOData) :: new, ?_, ?_⟩
    · rw [readN, run_bind_returned (run_read _ _ _), run_bind_returned hrun, run_pure, hdata,
        ← List.drop_eq_getElem_cons hd, List.append_assoc]
      rfl
    · exact hnew

/-- The register is read, and if that gives 0, 1 is written to it. -/
theorem run_raiseLevel (hans : Answers bus fifo lastBits) {l : ChipLog} (h : Taken l 0) :
    ∃ new, (raiseLevel bus).run l = (.returned (), l ++ new) ∧ Taken (l ++ new) 0 ∧
      writes .FIFOLevel new = if fifo.length = 0 then [1] else [] := by
  have hlevel := hans.level l h
  rw [raiseLevel, run_bind_returned (run_read _ _ _)]
  by_cases hzero : bus l .FIFOLevel = 0
  · have hnone : fifo.length = 0 := by
      rw [← hlevel, hzero]
      rfl
    refine ⟨[.read .FIFOLevel (bus l .FIFOLevel), .write .FIFOLevel 1], ?_, ?_, ?_⟩
    · rw [if_pos hzero, run_write, List.append_assoc]
      rfl
    · apply h.append
      intro x hx
      rcases List.mem_pair.mp hx with rfl | rfl <;> exact ⟨rfl, rfl⟩
    · rw [if_pos hnone]
      rfl
  · have hsome : fifo.length ≠ 0 := by
      rw [← hlevel]
      exact fun hnat => hzero (UInt8.toNat_inj.mp hnat)
    refine ⟨[.read .FIFOLevel (bus l .FIFOLevel)], ?_, h.snoc ⟨rfl, rfl⟩, ?_⟩
    · rw [if_neg hzero, run_pure]
    · rw [if_neg hsome]
      rfl

/-- **What is received** are the bytes; but if there are none, 1 is written to `FIFOLevel`. -/
theorem run_receive_fifo (hans : Answers bus fifo lastBits) {l : ChipLog} (h : Taken l 0) :
    ∃ new, (receive bus .Transceive).run l
        = (.returned (fifo, totalBits fifo.length lastBits), l ++ new) ∧
      writes .FIFOLevel new = if fifo.length = 0 then [1] else [] := by
  have hcontrol : Taken (l ++ [.read .Control (bus l .Control)]) 0 := h.snoc ⟨rfl, rfl⟩
  generalize hl₁ : l ++ [.read .Control (bus l .Control)] = l₁ at hcontrol
  have hbits : Taken (l₁ ++ [.read .FIFOLevel (bus l₁ .FIFOLevel)]) 0 := hcontrol.snoc ⟨rfl, rfl⟩
  obtain ⟨raised, hraise, hopen, hwritten⟩ := run_raiseLevel hans hbits
  generalize hl₂ : l₁ ++ [.read .FIFOLevel (bus l₁ .FIFOLevel)] ++ raised = l₂ at hraise hopen
  have hsize : Taken (l₂ ++ [.read .FIFOLevel (bus l₂ .FIFOLevel)]) 0 := hopen.snoc ⟨rfl, rfl⟩
  obtain ⟨data, hdata, hnone⟩ := run_readN_fifo hans fifo.length hsize (Nat.zero_add _)
  refine ⟨.read .Control (bus l .Control) :: .read .FIFOLevel (bus l₁ .FIFOLevel) :: raised ++
    .read .FIFOLevel (bus l₂ .FIFOLevel) :: data, ?_, ?_⟩
  · rw [receive, if_pos rfl, run_bind_returned (run_read _ _ _), hl₁]
    rw [run_bind_returned (run_read _ _ _), run_bind_returned hraise,
      run_bind_returned (run_read _ _ _), hans.level l₂ hopen, run_bind_returned hdata, run_pure,
      hans.control l, hans.level l₁ hcontrol, ← hl₂, ← hl₁, List.drop_zero]
    simp [totalBits]
  · have hbefore : writes .FIFOLevel ([.read .Control (bus l .Control),
        .read .FIFOLevel (bus l₁ .FIFOLevel)] : ChipLog) = [] := rfl
    have hsized : writes .FIFOLevel ([.read .FIFOLevel (bus l₂ .FIFOLevel)] : ChipLog) = [] := rfl
    show writes Regs.FIFOLevel (([.read .Control (bus l .Control),
      .read .FIFOLevel (bus l₁ .FIFOLevel)] : ChipLog) ++
        (raised ++ (([.read .FIFOLevel (bus l₂ .FIFOLevel)] : ChipLog) ++ data))) = _
    rw [writes_append, writes_append, writes_append, hbefore, hsized, hwritten, hnone,
      List.append_nil, List.append_nil, List.nil_append]

end Receive

/-! ### The whole exchange -/

section Exchange

variable (bus : Chip) (input : List UInt8) (l : ChipLog)

/-- The input is written to the FIFO. -/
theorem run_forEach_write (r : Regs) :
    (forEach input fun data => write r data : Drive Unit).run l
      = (.returned (), l ++ input.map (.write r)) := by
  induction input generalizing l with
  | nil => rw [run_forEach_nil, List.map_nil, List.append_nil]
  | cons x xs ih =>
    rw [run_forEach_cons (run_write r x l), ih, List.append_assoc]
    rfl

/-- What is sent: the FIFO is flushed, then filled, then the command is given. -/
theorem run_send (cmd : PcdCmds) : ∃ pre v,
    (send bus cmd input).run l
      = (.returned (), l ++ pre ++ [.read .FIFOLevel v, .write .FIFOLevel (v ||| 0x80)] ++
          input.map (.write .FIFOData) ++ [.write .Command cmd.code]) ∧
      writes .FIFOLevel pre = [] := by
  obtain ⟨irq, hirq⟩ := exists_run_modify (ε := Exn) bus .ComIrq (fun value => value &&& ~~~0x80)
    (l ++ [.write .ComIEn (irqEn cmd ||| 0x80)])
  obtain ⟨v, hflush⟩ := exists_run_modify (ε := Exn) bus .FIFOLevel (fun value => value ||| 0x80)
    (l ++ [.write .ComIEn (irqEn cmd ||| 0x80)] ++
      [.read .ComIrq irq, .write .ComIrq (irq &&& ~~~0x80)] ++
      [.write .Command PcdCmds.Idle.code])
  refine ⟨[.write .ComIEn (irqEn cmd ||| 0x80), .read .ComIrq irq,
    .write .ComIrq (irq &&& ~~~0x80), .write .Command PcdCmds.Idle.code], v, ?_, rfl⟩
  rw [send, run_bind_returned (run_write _ _ _), andAssign, run_bind_returned hirq,
    run_bind_returned (run_write _ _ _), orAssign, run_bind_returned hflush,
    run_bind_returned (run_forEach_write _ _ _), run_write]
  simp only [List.append_assoc]
  rfl

/-- Before the loop, `FIFOLevel` is written to flush the FIFO, and never else. -/
theorem armed_spec :
    Taken (armed bus .Transceive input l) 0 ∧
      ∃ v, writes .FIFOLevel (armed bus .Transceive input l)
        = writes .FIFOLevel l ++ [v ||| 0x80] := by
  obtain ⟨pre, v, hsend, hpre⟩ := run_send bus input l .Transceive
  obtain ⟨b, hstart⟩ := exists_run_modify (ε := Exn) bus .BitFraming (fun value => value ||| 0x80)
    ((send bus .Transceive input).run l).2
  have harmed : armed bus .Transceive input l = ((send bus .Transceive input).run l).2 ++
      [.read .BitFraming b, .write .BitFraming (b ||| 0x80)] := by
    rw [armed, startSend, if_pos rfl, orAssign, hstart]
  have hdata : writes .FIFOLevel (input.map (.write .FIFOData) : ChipLog) = [] := by
    apply writes_eq_nil
    intro x hx
    obtain ⟨data, -, rfl⟩ := List.mem_map.mp hx
    rfl
  rw [harmed, hsend]
  constructor
  · refine (Taken.command _).append ?_
    intro x hx
    rcases List.mem_pair.mp hx with rfl | rfl <;> exact ⟨rfl, rfl⟩
  · refine ⟨v, ?_⟩
    simp only [writes_append, hpre, hdata, List.append_assoc, List.nil_append]
    rfl

end Exchange

/-- A success is one without a time-out and without errors. -/
theorem code_eq_eok {cmd : PcdCmds} {irqVal error : UInt8} {count : Nat}
    (h : code cmd irqVal count error = .eok) : count ≠ 0 ∧ error &&& 0x1b = 0 := by
  unfold code at h
  split_ifs at h with hcount herror
  exact ⟨hcount, by simpa using herror⟩

/-- When the loop is over the FIFO has not been read, and written to only to flush it. -/
theorem cleared_spec (bus : Chip) (input : List UInt8) (l : ChipLog) (n : Nat) :
    Taken (cleared bus .Transceive input l n) 0 ∧
      ∃ v, writes .FIFOLevel (cleared bus .Transceive input l n)
        = writes .FIFOLevel l ++ [v ||| 0x80] := by
  obtain ⟨htaken, v, hflush⟩ := armed_spec bus input l
  have hpolls : ∀ x ∈ (List.range n).map fun j =>
      (.read .ComIrq (answer bus .ComIrq (armed bus .Transceive input l) j) : Access Regs UInt8),
      Aside x ∧ x.writtenTo .FIFOLevel = none := by
    intro x hx
    obtain ⟨j, -, rfl⟩ := List.mem_map.mp hx
    exact ⟨⟨rfl, rfl⟩, rfl⟩
  rw [cleared, readsLog_eq]
  constructor
  · refine (htaken.append fun x hx => (hpolls x hx).1).append ?_
    intro x hx
    rcases List.mem_pair.mp hx with rfl | rfl <;> exact ⟨rfl, rfl⟩
  · refine ⟨v, ?_⟩
    rw [writes_append, writes_append, hflush, writes_eq_nil fun x hx => (hpolls x hx).2]
    simp [writes, Access.writtenTo]

/-- **A successful exchange** receives the FIFO. -/
theorem run_received {bus : Chip} {fifo : List UInt8} {lastBits : UInt8} {input : List UInt8}
    {l l' : ChipLog} {info : Option (List UInt8 × Int)} (hans : Answers bus fifo lastBits)
    (hrun : (pcdComMF522 bus .Transceive input).run l = (.returned (.eok, info), l')) :
    info = some (fifo, totalBits fifo.length lastBits) ∧
      ∃ v, writes .FIFOLevel l' = writes .FIFOLevel l ++ [v ||| 0x80] ++
        if fifo.length = 0 then [1] else [] := by
  obtain ⟨k, -, -, -, ret, info', new, hret, hfinish, hpcd, -⟩ :=
    run_pcdComMF522 bus .Transceive input l
  rw [hpcd] at hrun
  obtain ⟨hreply, hlog⟩ := Prod.mk.inj hrun
  obtain ⟨rfl, rfl⟩ := Prod.mk.inj (Outcome.returned.inj hreply)
  obtain ⟨hcount, herror⟩ := code_eq_eok hret.symm
  obtain ⟨htaken, v, hflush⟩ := cleared_spec bus input l (k + 1)
  have herrorRead := htaken.snoc (x := .read .Error (errorAt bus .Transceive input l (k + 1)))
    ⟨rfl, rfl⟩
  obtain ⟨received, hreceive, hwritten⟩ := run_receive_fifo hans herrorRead
  have hsame := run_finish_received bus .Transceive _ (irqAt bus .Transceive input l k) hcount
    herror hreceive
  obtain ⟨hinfo, hnew⟩ := Prod.mk.inj (hfinish.symm.trans hsame)
  refine ⟨(Prod.mk.inj (Outcome.returned.inj hinfo)).2, v, ?_⟩
  obtain ⟨stop, hstopped, hstop⟩ :=
    exists_stopped bus (cleared bus .Transceive input l (k + 1) ++ new)
  rw [← hlog, hstopped, writes_append, writes_eq_nil fun x hx => (hstop x hx).2, hnew,
    writes_append, writes_append, hflush, hwritten, List.append_nil]
  simp [writes, Access.writtenTo]

/-- **The FIFO is received** as the caller expects it: all bytes in order, the number of their
    bits, and no write to `FIFOLevel` but the flush. -/
structure Received (fifo : List UInt8) (lastBits : UInt8) (l l' : ChipLog) (out : List UInt8)
    (bits : Int) : Prop where
  data : out = fifo
  count : bits = if fifo.length = 0 then 0
    else if lastBits = 0 then 8 * fifo.length
    else 8 * (fifo.length - 1) + lastBits.toNat
  bounds : 0 ≤ bits ∧ bits ≤ 8 * fifo.length
  level : ∃ v, writes .FIFOLevel l' = writes .FIFOLevel l ++ [v ||| 0x80]

/-- **The FIFO is received** exactly if there is something in it: otherwise the number of bits is
    wrong unless it is a whole number of bytes, and 1 is written to `FIFOLevel`. -/
theorem received_iff {bus : Chip} {fifo : List UInt8} {lastBits : UInt8} {input : List UInt8}
    {l l' : ChipLog} {info : Option (List UInt8 × Int)} (hans : Answers bus fifo lastBits)
    (hrun : (pcdComMF522 bus .Transceive input).run l = (.returned (.eok, info), l')) :
    ∃ out bits, info = some (out, bits) ∧
      (Received fifo lastBits l l' out bits ↔ 0 < fifo.length) := by
  obtain ⟨hinfo, v, hlevel⟩ := run_received hans hrun
  refine ⟨fifo, _, hinfo, ?_⟩
  constructor
  · intro hrec
    obtain ⟨w, hw⟩ := hrec.level
    by_contra hnone
    rw [if_pos (Nat.eq_zero_of_not_pos hnone)] at hlevel
    have hlen := congrArg List.length (hlevel.symm.trans hw)
    simp only [List.length_append, List.length_singleton] at hlen
    omega
  · intro hpos
    have hlast : lastBits.toNat ≤ 7 := by
      rw [← hans.control [], UInt8.toNat_and]
      exact Nat.and_le_right
    have hzero : lastBits = 0 ↔ lastBits.toNat = 0 := by
      rw [← UInt8.toNat_inj]
      rfl
    rw [if_neg (by omega), List.append_nil] at hlevel
    refine ⟨rfl, ?_, ?_, v, hlevel⟩
    · unfold totalBits
      split_ifs <;> omega
    · unfold totalBits
      split_ifs <;> omega

/-- A chip that is done at once and has received the bytes. -/
def fifoChip (fifo : List UInt8) (lastBits : UInt8) : Chip := fun l r =>
  match r with
  | .ComIrq    => 0x30
  | .FIFOLevel => UInt8.ofNat (fifo.length - dataReads l)
  | .FIFOData  => fifo.getD (dataReads l) 0
  | .Control   => lastBits
  | _          => 0

theorem answers_fifoChip {fifo : List UInt8} {lastBits : UInt8} (hlen : fifo.length < 256)
    (hbits : lastBits &&& 0x07 = lastBits) : Answers (fifoChip fifo lastBits) fifo lastBits where
  level := by
    intro l htaken
    show (UInt8.ofNat (fifo.length - dataReads l)).toNat = _
    rw [htaken.2, Nat.sub_zero, UInt8.toNat_ofNat', Nat.mod_eq_of_lt hlen]
  data := by
    intro l d v htaken hv
    show fifo.getD (dataReads l) 0 = v
    rw [htaken.2, List.getD_eq_getElem?_getD, hv, Option.getD_some]
  control := fun _ => hbits

theorem received_iff_two :
    ∃ out bits, some ([4, 0], 16) = some (out, bits) ∧
      (Received [4, 0] 0 [] ((pcdComMF522 (fifoChip [4, 0] 0) .Transceive [0x52]).run []).2 out
        bits ↔ 0 < [4, 0].length) :=
  received_iff (answers_fifoChip (by decide) (by decide))
    (show (pcdComMF522 (fifoChip [4, 0] 0) .Transceive [0x52]).run []
      = (.returned (.eok, some ([4, 0], 16)), _) from rfl)

/-- A card that answers with three bits, none of which is in the FIFO any more. -/
theorem nothing_received :
    ∃ l', (pcdComMF522 (fifoChip [] 3) .Transceive [0x52]).run []
        = (.returned (.eok, some ([], -5)), l') ∧
      Answers (fifoChip [] 3) [] 3 ∧ ¬ Received [] 3 [] l' [] (-5) := by
  refine ⟨_, rfl, answers_fifoChip (by decide) (by decide), fun h => ?_⟩
  exact absurd h.bounds.1 (by decide)

end RtCharger.Devices.Pcd
