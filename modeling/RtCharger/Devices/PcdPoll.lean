import RtCharger.Devices.PcdAntiColl

namespace RtCharger.Devices.Pcd

open Effect RegisterBus

/-!
# A poll for cards on the chip

The timer callback asks the chip for a card.  If the answer is unknown it resets the chip, and
the loop that waits for the end of the reset has no counter.

* `pcdRequest`, `pcdReset` — what the callback calls;
* `onRun` — the callback with all its register accesses;
* `exists_poll`, `exists_polls` — it does to the members of `Rc522` what `Rc522.onRun` says;
* `ends_iff` — it ends unless the answer is unknown and the chip stays in reset.
-/

/-- `Piccs::ReqAll`. -/
def reqAll : UInt8 := 0x52

/-- `pcdRequest` up to the exchange. -/
def beginRequest (bus : Chip) : Drive Unit := do
  andAssign bus .Status2 (~~~0x08)
  write .BitFraming 0x07
  orAssign bus .TxControl 0x03

/-- `pcdRequest`. -/
def pcdRequest (bus : Chip) (reqCode : UInt8) : Drive RetVal := do
  beginRequest bus
  let (err, _) ← pcdComMF522 bus .Transceive [reqCode]
  pure err

/-- `pcdAntennaOn`. -/
def pcdAntennaOn (bus : Chip) : Drive Unit := do
  let data ← read bus .TxControl
  if data &&& 0x03 = 0 then orAssign bus .TxControl 0x03 else pure ()

/-- `pcdConfigISOType`: there is only one type. -/
def pcdConfigISOType (bus : Chip) (type : Char) : Drive Unit :=
  if type = 'A' then do
    andAssign bus .Status2 (~~~0x08)
    write .Mode 0x3d
    write .RxSel 0x86
    write .RFCfg 0x7f
    write .TReloadL 30
    write .TReloadH 0
    write .TMode 0x8d
    write .TPrescaler 0x3e
    pcdAntennaOn bus
  else pure ()

/-- `pcdReset` behind the loop. -/
def configure (bus : Chip) : Drive Unit := do
  write .Mode 0x3d
  write .TReloadL 30
  write .TReloadH 0
  write .TMode 0x8d
  write .TPrescaler 0x3e
  write .TxAuto 0x40
  pcdConfigISOType bus 'A'

/-- `(*this)[Regs::Command] & 0x10` is 0: the loop ends. -/
def awake (command : UInt8) : Bool := command &&& 0x10 == 0

/-- `pcdReset`, whose loop is watched for `fuel + 1` rounds: `none` if it is not over then. -/
def pcdReset (bus : Chip) (fuel : Nat) : Drive (Option Unit) := do
  write .Command 0x0f
  let (command, _) ← poll bus .Command awake fuel
  if awake command then do
    configure bus
    pure (some ())
  else pure none

/-- `timer.onRun`, with the members of `Rc522` afterwards. -/
def onRun (bus : Chip) (fuel : Nat) (s : Rc522) : Drive (Option Rc522) := do
  let retVal ← pcdRequest bus reqAll
  if retVal.code ≠ 0 ∧ retVal.code ≠ 8 then do
    let ended ← pcdReset bus fuel
    pure (ended.map fun _ => s)
  else if retVal.code ≠ RetVal.eok.code then
    let s := { s with contiReqFailedCnt := s.contiReqFailedCnt + 1 }
    pure (some (if (1#32).slt s.contiReqFailedCnt then s.setCardId none else s))
  else do
    let s := { s with contiReqFailedCnt := 0 }
    let acRetVal ← pcdAntiColl bus
    match acRetVal with
    | .ok pStr => pure (some (s.setCardId (some pStr)))
    | .error _ => pure (some (s.setCardId none))

/-! ### How much it does -/

/-- Any access. -/
def Any (_ : Access Regs UInt8) : Prop := True

theorem does_write_any (r : Regs) (v : UInt8) : Does Any 1 (write r v : Drive Unit) :=
  does_write trivial

theorem does_modify_any (bus : Chip) (r : Regs) (f : UInt8 → UInt8) :
    Does Any 2 (modify bus r f : Drive Unit) :=
  does_modify (fun _ => trivial) fun _ => trivial

theorem does_pcdRequest (bus : Chip) (reqCode : UInt8) :
    Does Any 1281 (pcdRequest bus reqCode) := by
  have hbegin : Does Any 5 (beginRequest bus) :=
    (does_modify_any _ _ _).bind fun _ => (does_write_any _ _).bind fun _ => does_modify_any _ _ _
  have hexchange := does_pcdComMF522 bus .Transceive (fun _ => (trivial : Any _)) [reqCode]
  exact hbegin.bind fun _ => hexchange.bind fun _ => does_pure _

theorem does_pcdAntiColl (bus : Chip) : Does Any 1284 (pcdAntiColl bus) := by
  intro l
  have hbegin : Does Any 5 (beginAntiColl bus) :=
    (does_modify_any _ _ _).bind fun _ => (does_write_any _ _).bind fun _ => does_modify_any _ _ _
  obtain ⟨⟨⟩, before, hrun, hbefore, -⟩ := hbegin l
  obtain ⟨reply, new, hexchange, hnew, -⟩ :=
    does_pcdComMF522 bus .Transceive (fun _ => (trivial : Any _)) [0x93, 0x20] (l ++ before)
  obtain ⟨reply', l', hexchange', hcall⟩ := run_pcdAntiColl bus l
  have hbegun : begun bus l = l ++ before := by rw [begun, hrun]
  rw [hbegun, hexchange] at hexchange'
  obtain ⟨-, rfl⟩ := Prod.mk.inj hexchange'
  rw [List.append_assoc, List.append_assoc] at hcall
  refine ⟨_, _, hcall, ?_, fun _ _ => trivial⟩
  simp only [List.length_append, List.length_cons, List.length_nil] at hnew ⊢
  omega

theorem does_pcdAntennaOn (bus : Chip) : Does Any 3 (pcdAntennaOn bus) := by
  have hread : Does Any 1 (read bus .TxControl : Drive _) := does_read fun _ => trivial
  refine Does.bind hread (m := 2) fun data => ?_
  apply Does.ite
  · exact fun _ => does_modify_any _ _ _
  · exact fun _ => (does_pure ()).mono (Nat.zero_le _)

theorem does_pcdConfigISOType (bus : Chip) : Does Any 12 (pcdConfigISOType bus 'A') :=
  (does_modify_any _ _ _).bind fun _ => (does_write_any _ _).bind fun _ =>
    (does_write_any _ _).bind fun _ => (does_write_any _ _).bind fun _ =>
    (does_write_any _ _).bind fun _ => (does_write_any _ _).bind fun _ =>
    (does_write_any _ _).bind fun _ => (does_write_any _ _).bind fun _ => does_pcdAntennaOn bus

theorem does_configure (bus : Chip) : Does Any 18 (configure bus) :=
  (does_write_any _ _).bind fun _ => (does_write_any _ _).bind fun _ =>
    (does_write_any _ _).bind fun _ => (does_write_any _ _).bind fun _ =>
    (does_write_any _ _).bind fun _ => (does_write_any _ _).bind fun _ => does_pcdConfigISOType bus

section Run

variable (bus : Chip) (l : ChipLog)

/-! ### The request -/

/-- The log at the exchange of the request. -/
def requesting : ChipLog := ((beginRequest bus).run l).2

/-- **The answer is unknown**: the chip is not done in 999 polls, or it is and reports an error. -/
def Unknown : Prop :=
  (∀ j < 999, done .Transceive (irqAt bus .Transceive [reqAll] (requesting bus l) j) = false) ∨
    ∃ k < 999,
      (∀ j < k, done .Transceive (irqAt bus .Transceive [reqAll] (requesting bus l) j) = false) ∧
      done .Transceive (irqAt bus .Transceive [reqAll] (requesting bus l) k) = true ∧
      errorAt bus .Transceive [reqAll] (requesting bus l) (k + 1) &&& 0x1b ≠ 0

/-- The codes that make the callback reset the chip. -/
theorem code_ne_iff {cmd : PcdCmds} {irqVal error : UInt8} {count : Nat} :
    ((code cmd irqVal count error).code ≠ 0 ∧ (code cmd irqVal count error).code ≠ 8)
      ↔ count = 0 ∨ error &&& 0x1b ≠ 0 := by
  unfold code
  split_ifs with hcount herror hirq <;> simp_all [RetVal.code]

/-- The request returns such a code exactly if the answer is unknown. -/
theorem run_pcdRequest : ∃ ret l', (pcdRequest bus reqAll).run l = (.returned ret, l') ∧
    ((ret.code ≠ 0 ∧ ret.code ≠ 8) ↔ Unknown bus l) := by
  obtain ⟨k, hk, hbefore, hend, info, l', hrun, -⟩ :=
    run_polled bus .Transceive [reqAll] (requesting bus l)
  have hrequest : (pcdRequest bus reqAll).run l = (.returned (code .Transceive
      (irqAt bus .Transceive [reqAll] (requesting bus l) k) (999 - k)
      (errorAt bus .Transceive [reqAll] (requesting bus l) (k + 1))), l') := by
    have hbegin : (beginRequest bus).run l = (.returned (), requesting bus l) := rfl
    rw [pcdRequest, run_bind_returned hbegin, run_bind_returned hrun]
    rfl
  refine ⟨_, l', hrequest, code_ne_iff.trans ?_⟩
  constructor
  · intro hfailed
    rcases Nat.lt_or_eq_of_le hk with hlt | rfl
    · exact .inr ⟨k, hlt, hbefore, hend.resolve_right (Nat.ne_of_lt hlt),
        hfailed.resolve_left (by omega)⟩
    · exact .inl hbefore
  · rintro (hnone | ⟨k', hk', hbefore', hdone', herror⟩)
    · refine .inl ?_
      by_contra hcount
      have hdone := hend.resolve_right (by omega)
      rw [hnone k (by omega)] at hdone
      cases hdone
    · -- the first poll that says so is the one that ended the loop
      obtain rfl : k = k' := by
        rcases Nat.lt_trichotomy k k' with h | h | h
        · have hdone := hend.resolve_right (by omega)
          rw [hbefore' k h] at hdone
          cases hdone
        · exact h
        · rw [hbefore k' h] at hdone'
          cases hdone'
      exact .inr herror

/-! ### The reset -/

/-- What is read from `Command` in round `k` of the loop of a reset. -/
def resetRead (k : Nat) : UInt8 := answer bus .Command (l ++ [.write .Command 0x0f]) k

/-- The accesses of a reset up to that round. -/
def rounds (k : Nat) : ChipLog :=
  .write .Command 0x0f :: (List.range (k + 1)).map fun j => .read .Command (resetRead bus l j)

theorem length_rounds (k : Nat) : (rounds bus l k).length = k + 2 := by
  rw [rounds, List.length_cons, List.length_map, List.length_range]

/-- **A reset** ends with the first round in which the chip is awake. -/
theorem run_pcdReset (fuel : Nat) :
    (∃ k ≤ fuel, awake (resetRead bus l k) = true ∧
      ∃ new, (pcdReset bus fuel).run l = (.returned (some ()), l ++ rounds bus l k ++ new) ∧
        new.length ≤ 18) ∨
      ((∀ k ≤ fuel, awake (resetRead bus l k) = false) ∧
        (pcdReset bus fuel).run l = (.returned none, l ++ rounds bus l fuel)) := by
  obtain ⟨k, hk, hbefore, hend, hpoll⟩ :=
    run_poll (ε := Exn) bus .Command awake fuel (l ++ [.write .Command 0x0f])
  rw [readsLog_eq, List.append_assoc, List.singleton_append] at hpoll
  change (poll bus .Command awake fuel).run (l ++ [.write .Command 0x0f])
    = (.returned (resetRead bus l k, fuel - k), l ++ rounds bus l k) at hpoll
  cases hawake : awake (resetRead bus l k) with
  | true =>
    obtain ⟨⟨⟩, new, hconf, hnew, -⟩ := does_configure bus (l ++ rounds bus l k)
    refine .inl ⟨k, hk, hawake, new, ?_, hnew⟩
    rw [pcdReset, run_bind_returned (run_write _ _ _), run_bind_returned hpoll]
    dsimp only
    rw [if_pos hawake, run_bind_returned hconf, run_pure]
  | false =>
    obtain rfl : k = fuel := by
      refine hend.resolve_left fun hdone => ?_
      exact absurd (hdone.symm.trans hawake) (by decide)
    refine .inr ⟨?_, ?_⟩
    · intro j hj
      rcases Nat.lt_or_eq_of_le hj with hlt | rfl
      · exact hbefore j hlt
      · exact hawake
    · rw [pcdReset, run_bind_returned (run_write _ _ _), run_bind_returned hpoll]
      dsimp only
      rw [if_neg (by simp [hawake]), run_pure]

/-! ### The callback -/

/-- The log after the request. -/
def requested : ChipLog := ((pcdRequest bus reqAll).run l).2

/-- A poll, as what the chip answers to the request and to `pcdAntiColl`. -/
structure Answered (poll : Poll) : Prop where
  request : (pcdRequest bus reqAll).run l = (.returned poll.request, requested bus l)
  antiColl : poll.request = .eok →
    ∃ res, Returns bus (requested bus l) res ∧ poll.antiColl = res.mapError RetVal.code

/-- The request takes so many accesses. -/
theorem exists_requested : ∃ new, requested bus l = l ++ new ∧ new.length ≤ 1281 := by
  obtain ⟨ret, new, hrun, hlen, -⟩ := does_pcdRequest bus reqAll l
  refine ⟨new, ?_, hlen⟩
  rw [requested, hrun]

/-- **The callback** ends after so many accesses if the answer is known, and is a reset
    otherwise. -/
theorem run_onRun (fuel : Nat) (s : Rc522) : ∃ poll, Answered bus l poll ∧
    ((¬ Unknown bus l ∧ ∃ new, new.length ≤ 1284 ∧
        (onRun bus fuel s).run l = (.returned (some (s.onRun poll)), requested bus l ++ new)) ∨
      (Unknown bus l ∧ s.onRun poll = s ∧
        (onRun bus fuel s).run l = (do
          let ended ← pcdReset bus fuel
          pure (ended.map fun _ => s) : Drive _).run (requested bus l))) := by
  obtain ⟨ret, l', hrun, hcode⟩ := run_pcdRequest bus l
  have hlog : requested bus l = l' := by rw [requested, hrun]
  subst hlog
  cases ret with
  | eok =>
    obtain ⟨res, new, hcall, hlen, -⟩ := does_pcdAntiColl bus (requested bus l)
    refine ⟨⟨.eok, res.mapError RetVal.code⟩, ⟨hrun, fun _ => ⟨res, ⟨_, hcall⟩, rfl⟩⟩, .inl ?_⟩
    refine ⟨fun hunknown => absurd (hcode.mpr hunknown) (by decide), new, hlen, ?_⟩
    rw [onRun, run_bind_returned hrun, if_neg (by decide), if_neg (by decide),
      run_bind_returned hcall]
    cases res <;> rfl
  | eio =>
    refine ⟨⟨.eio, .error 0⟩, ⟨hrun, fun h => nomatch h⟩, .inl ?_⟩
    refine ⟨fun hunknown => absurd (hcode.mpr hunknown) (by decide), [], Nat.zero_le _, ?_⟩
    rw [onRun, run_bind_returned hrun, if_neg (by decide), if_pos (by decide), List.append_nil]
    rfl
  | error =>
    refine ⟨⟨.error, .error 0⟩, ⟨hrun, fun h => nomatch h⟩, .inr ?_⟩
    refine ⟨hcode.mp (by decide), Rc522.onRun_reset _ (.inl rfl), ?_⟩
    rw [onRun, run_bind_returned hrun, if_pos (by decide)]
  | etimeout =>
    refine ⟨⟨.etimeout, .error 0⟩, ⟨hrun, fun h => nomatch h⟩, .inr ?_⟩
    refine ⟨hcode.mp (by decide), Rc522.onRun_reset _ (.inr rfl), ?_⟩
    rw [onRun, run_bind_returned hrun, if_pos (by decide)]

/-- The answer is unknown, and the chip is never awake again. -/
def Stuck : Prop := Unknown bus l ∧ ∀ k, awake (resetRead bus (requested bus l) k) = false

/-- The callback ends after at most `n` accesses. -/
def EndsWithin (s : Rc522) (n : Nat) : Prop :=
  ∃ fuel s' new, (onRun bus fuel s).run l = (.returned (some s'), l ++ new) ∧ new.length ≤ n

/-- **What the callback does** when it ends is a poll of the reader. -/
theorem exists_poll {fuel : Nat} {s s' : Rc522} {l' : ChipLog}
    (h : (onRun bus fuel s).run l = (.returned (some s'), l')) :
    ∃ poll, Answered bus l poll ∧ s' = s.onRun poll := by
  obtain ⟨poll, hpoll, ⟨-, new, -, hrun⟩ | ⟨-, hsame, hrun⟩⟩ := run_onRun bus l fuel s
  · obtain ⟨hs, -⟩ := Prod.mk.inj (hrun.symm.trans h)
    exact ⟨poll, hpoll, (Option.some.inj (Outcome.returned.inj hs)).symm⟩
  · refine ⟨poll, hpoll, ?_⟩
    rw [hsame]
    rcases run_pcdReset bus (requested bus l) fuel with ⟨k, -, -, new, hreset, -⟩ | ⟨-, hreset⟩
    · rw [run_bind_returned hreset] at hrun
      obtain ⟨hs, -⟩ := Prod.mk.inj (hrun.symm.trans h)
      exact (Option.some.inj (Outcome.returned.inj hs)).symm
    · rw [run_bind_returned hreset] at hrun
      obtain ⟨hs, -⟩ := Prod.mk.inj (hrun.symm.trans h)
      cases Outcome.returned.inj hs

/-- `n` times the callback, as long as it ends. -/
def onRuns (fuel : Nat) : (n : Nat) → Rc522 → Drive (Option Rc522)
  | 0, s     => pure (some s)
  | n + 1, s => do
    match ← onRun bus fuel s with
    | some s => onRuns fuel n s
    | none   => pure none

/-- **Any number of callbacks** that end are as many polls of the reader. -/
theorem exists_polls {fuel n : Nat} {s s' : Rc522} {l l' : ChipLog}
    (h : (onRuns bus fuel n s).run l = (.returned (some s'), l')) :
    ∃ polls : List Poll, polls.length = n ∧ s' = polls.foldl Rc522.onRun s := by
  induction n generalizing s l with
  | zero =>
    obtain ⟨hs, -⟩ := Prod.mk.inj h
    exact ⟨[], rfl, (Option.some.inj (Outcome.returned.inj hs)).symm⟩
  | succ n ih =>
    obtain ⟨s₁, l₁, hfirst, hrest⟩ : ∃ s₁ l₁,
        (onRun bus fuel s).run l = (.returned (some s₁), l₁) ∧
          (onRuns bus fuel n s₁).run l₁ = (.returned (some s'), l') := by
      rw [onRuns, run_bind] at h
      cases hrun : (onRun bus fuel s).run l with
      | mk o l₁ =>
        rw [hrun] at h
        match o, h with
        | .returned (some s₁), h => exact ⟨s₁, l₁, rfl, h⟩
        | .returned none, h => cases Outcome.returned.inj (Prod.mk.inj h).1
    obtain ⟨poll, -, rfl⟩ := exists_poll bus l hfirst
    obtain ⟨polls, hlen, hs⟩ := ih hrest
    exact ⟨poll :: polls, congrArg (· + 1) hlen, hs⟩

/-- While the chip is stuck the callback reads. -/
theorem run_onRun_stuck (h : Stuck bus l) (fuel : Nat) (s : Rc522) :
    (onRun bus fuel s).run l
      = (.returned none, requested bus l ++ rounds bus (requested bus l) fuel) := by
  obtain ⟨-, -, ⟨hknown, -⟩ | ⟨-, -, hrun⟩⟩ := run_onRun bus l fuel s
  · exact absurd h.1 hknown
  · rcases run_pcdReset bus (requested bus l) fuel with ⟨k, -, hawake, -⟩ | ⟨-, hreset⟩
    · exact absurd (hawake.symm.trans (h.2 k)) (by decide)
    · rw [hrun, run_bind_returned hreset]
      rfl

/-- If the chip is awake in some round, or if nothing is unknown, the callback ends. -/
theorem endsWithin_of_awake (s : Rc522) {k : Nat}
    (h : Unknown bus l → ∃ j ≤ k, awake (resetRead bus (requested bus l) j) = true) :
    EndsWithin bus l s (2565 + k) := by
  obtain ⟨before, hbefore, hlen⟩ := exists_requested bus l
  obtain ⟨poll, -, ⟨-, new, hnew, hrun⟩ | ⟨hunknown, -, hrun⟩⟩ := run_onRun bus l k s
  · rw [hbefore, List.append_assoc] at hrun
    refine ⟨k, _, _, hrun, ?_⟩
    rw [List.length_append]
    omega
  · obtain ⟨j, hj, hawake⟩ := h hunknown
    rcases run_pcdReset bus (requested bus l) k with ⟨i, hi, -, new, hreset, hnew⟩ | ⟨hnone, -⟩
    · rw [run_bind_returned hreset, run_pure, hbefore, List.append_assoc, List.append_assoc] at hrun
      refine ⟨k, _, _, hrun, ?_⟩
      rw [List.length_append, List.length_append, length_rounds]
      omega
    · exact absurd (hawake.symm.trans (hnone j hj)) (by decide)

/-- **A poll ends** unless the answer to the request is unknown and the chip stays in reset: after
    as many accesses as the loop of the reset has rounds, and 2565. -/
theorem ends_iff (s : Rc522) :
    ((∃ n, EndsWithin bus l s n) ↔ ¬ Stuck bus l) ∧
      ∀ k, (Unknown bus l → ∃ j ≤ k, awake (resetRead bus (requested bus l) j) = true) →
        EndsWithin bus l s (2565 + k) := by
  refine ⟨?_, fun k => endsWithin_of_awake bus l s⟩
  constructor
  · rintro ⟨n, fuel, s', new, hrun, -⟩ hstuck
    rw [run_onRun_stuck bus l hstuck fuel s] at hrun
    cases Outcome.returned.inj (Prod.mk.inj hrun).1
  · intro hstuck
    by_cases hunknown : Unknown bus l
    · obtain ⟨k, hk⟩ : ∃ k, awake (resetRead bus (requested bus l) k) = true := by
        by_contra hnone
        refine hstuck ⟨hunknown, fun k => Bool.eq_false_iff.mpr fun hawake => hnone ⟨k, hawake⟩⟩
      exact ⟨_, endsWithin_of_awake bus l s fun _ => ⟨k, Nat.le_refl k, hk⟩⟩
    · exact ⟨_, endsWithin_of_awake bus l s (k := 0) fun h => absurd h hunknown⟩

end Run

/-- A bus without a chip. -/
def allOnes : Chip := fun _ _ => 0xff

theorem stuck_allOnes : Stuck allOnes [] := by
  have hdone : done .Transceive 0xff = true := by decide
  have hasleep : awake 0xff = false := by decide
  refine ⟨.inr ⟨0, by decide, ?_, hdone, (by decide : (0xff : UInt8) &&& 0x1b ≠ 0)⟩, fun _ => hasleep⟩
  intro j hj
  exact absurd hj (Nat.not_lt_zero j)

/-- The callback reads for ever: more often than any number of rounds. -/
theorem never_ends :
    (∀ fuel, ∃ l', (onRun allOnes fuel ⟨none, 0, []⟩).run [] = (.returned none, l') ∧
      fuel < l'.length) ∧ ¬ ∃ n, EndsWithin allOnes [] ⟨none, 0, []⟩ n := by
  constructor
  · intro fuel
    refine ⟨_, run_onRun_stuck allOnes [] stuck_allOnes fuel _, ?_⟩
    rw [List.length_append, length_rounds]
    omega
  · rintro ⟨n, fuel, s', new, hrun, -⟩
    rw [run_onRun_stuck allOnes [] stuck_allOnes fuel _] at hrun
    cases Outcome.returned.inj (Prod.mk.inj hrun).1

end RtCharger.Devices.Pcd
