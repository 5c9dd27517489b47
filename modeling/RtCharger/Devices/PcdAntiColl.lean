import Mathlib.Data.Nat.Digits.Lemmas
import RtCharger.Devices.PcdFifo
import RtCharger.Utilities.Text

namespace RtCharger.Devices.Pcd

open Effect RegisterBus Utilities

/-!
# Reading the id of a card

`pcdAntiColl` asks the card for its id: four bytes and their exclusive-or.  The id is the decimal
text of the bytes as a number.

* `pcdAntiColl` — the call, with the scope guard that restores `Coll`;
* `leaves_idle` — how the chip is left, whatever it answers;
* `cardIdOf` — what is made of the bytes;
* `id_faithful` — which bytes are accepted, and which ids they give.
-/

/-- `checksum` after the loop over the bytes. -/
def checksum (data : List UInt8) : UInt8 := data.foldl (fun checksum b => checksum ^^^ b) 0

/-- The bytes as a number, the first of them lowest: `*(rt_uint32_t*)&data[0]` for four bytes. -/
def littleEndian (data : List UInt8) : Nat := Nat.ofDigits 256 (data.map UInt8.toNat)

/-- What `pcdAntiColl` makes of the bytes that were received. -/
def cardIdOf (data : List UInt8) : Except RetVal String :=
  if data.length < 5 then .error .error
  else if checksum (data.take 4) ≠ data.getD 4 0 then .error .error
  -- `sprintf(buff.get(), "%u", …)`
  else .ok (littleEndian (data.take 4)).repr

/-- `pcdAntiColl` up to the guard. -/
def beginAntiColl (bus : Chip) : Drive Unit := do
  andAssign bus .Status2 (~~~0x08)
  write .BitFraming 0x00
  andAssign bus .Coll (~~~0x80)

/-- `pcdAntiColl`. -/
def pcdAntiColl (bus : Chip) : Drive (Except RetVal String) := do
  beginAntiColl bus
  inScope (orAssign bus .Coll 0x80) do
    let (err, info) ← pcdComMF522 bus .Transceive [0x93, 0x20]
    if err ≠ .eok then pure (.error err)
    else do
      -- `*info` is undefined if there is none
      let (data, _) ← ofOption info
      pure (cardIdOf data)

/-! ### One call -/

/-- A successful exchange has received something. -/
theorem exists_received {bus : Chip} {cmd : PcdCmds} {input : List UInt8} {l l' : ChipLog}
    {info : Option (List UInt8 × Int)}
    (hrun : (pcdComMF522 bus cmd input).run l = (.returned (.eok, info), l')) :
    ∃ received, info = some received := by
  obtain ⟨k, _, _, _, ret, info', new, hret, hfinish, hpcd, _⟩ := run_pcdComMF522 bus cmd input l
  obtain ⟨hreply, -⟩ := Prod.mk.inj (hpcd.symm.trans hrun)
  obtain ⟨rfl, rfl⟩ := Prod.mk.inj (Outcome.returned.inj hreply)
  obtain ⟨hcount, herror⟩ := code_eq_eok hret.symm
  obtain ⟨received, _, hreceive, _⟩ := run_receive bus cmd
    (cleared bus cmd input l (k + 1) ++ [.read .Error (errorAt bus cmd input l (k + 1))])
  have hsame := run_finish_received bus cmd _ (irqAt bus cmd input l k) hcount herror hreceive
  obtain ⟨hinfo, -⟩ := Prod.mk.inj (hfinish.symm.trans hsame)
  exact ⟨received, (Prod.mk.inj (Outcome.returned.inj hinfo)).2⟩

section Call

variable (bus : Chip) (l : ChipLog)

/-- The log at the guard. -/
def begun : ChipLog := ((beginAntiColl bus).run l).2

theorem run_beginAntiColl : (beginAntiColl bus).run l = (.returned (), begun bus l) := rfl

/-- What `pcdAntiColl` makes of the exchange. -/
def outcome : Reply → Except RetVal String
  | (.eok, some (data, _)) => cardIdOf data
  | (err, _)               => .error err

/-- **A call** is an exchange between the two writes to `Coll`. -/
theorem run_pcdAntiColl : ∃ reply l',
    (pcdComMF522 bus .Transceive [0x93, 0x20]).run (begun bus l) = (.returned reply, l') ∧
      (pcdAntiColl bus).run l = (.returned (outcome reply),
        l' ++ [.read .Coll (bus l' .Coll), .write .Coll (bus l' .Coll ||| 0x80)]) := by
  obtain ⟨_, _, _, _, err, info, _, _, _, hrun, _⟩ :=
    run_pcdComMF522 bus .Transceive [0x93, 0x20] (begun bus l)
  refine ⟨(err, info), _, hrun, ?_⟩
  rw [pcdAntiColl, run_bind_returned (run_beginAntiColl bus l)]
  refine run_inScope_returned ?_ (run_modify _ _ _ _)
  rw [run_bind_returned hrun]
  dsimp only
  by_cases herr : err = .eok
  · subst herr
    obtain ⟨received, rfl⟩ := exists_received hrun
    rfl
  · rw [if_pos herr]
    cases err with
    | eok => exact absurd rfl herr
    | error    => rfl
    | etimeout => rfl
    | eio      => rfl

end Call

/-! ### How the chip is left -/

/-- Clearing a mask. -/
theorem and_not_and_self (v mask : UInt8) : v &&& ~~~mask &&& mask = 0 := by
  rw [UInt8.and_assoc, UInt8.not_and_self, UInt8.and_zero]

/-- Setting a mask. -/
theorem or_and_self (v mask : UInt8) : (v ||| mask) &&& mask = mask := by
  apply UInt8.toBitVec_inj.mp
  ext i hi
  simp only [UInt8.toBitVec_and, UInt8.toBitVec_or, BitVec.getElem_and, BitVec.getElem_or]
  cases mask.toBitVec[i] <;> simp

/-- **The chip is left idle**: no command, no transmission, and the timer stopped. -/
structure LeftIdle (l : ChipLog) : Prop where
  command : lastWrite .Command l = some PcdCmds.Idle.code
  startSend : ∃ v, lastWrite .BitFraming l = some v ∧ v &&& 0x80 = 0
  stopTimer : ∃ v, lastWrite .Control l = some v ∧ v &&& 0x80 = 0x80

/-- The loop is left with `StartSend` clear, and the guard does the rest. -/
theorem leftIdle_stopped (bus : Chip) (cmd : PcdCmds) (input : List UInt8) (l : ChipLog) (n : Nat)
    {new : ChipLog} (hnew : ∀ x ∈ new, BehindLoop x) :
    LeftIdle (stopped bus (cleared bus cmd input l n ++ new)) where
  command := lastWrite_append_of_some rfl _
  startSend := by
    refine ⟨bus (readsLog bus .ComIrq (armed bus cmd input l) n) .BitFraming &&& ~~~0x80, ?_,
      and_not_and_self _ _⟩
    obtain ⟨stop, hstopped, hstop⟩ := exists_stopped bus (cleared bus cmd input l n ++ new)
    rw [hstopped, lastWrite_append_of_none fun x hx => (hstop x hx).1.2,
      lastWrite_append_of_none fun x hx => (hnew x hx).2, cleared]
    exact lastWrite_append_of_some rfl _
  stopTimer := ⟨_, lastWrite_append_of_some rfl _, or_and_self _ _⟩

/-- **Every exit leaves the chip idle**, whatever it answers: an exchange of any command leaves
    it without command, transmission and timer, and `pcdAntiColl` restores `Coll`. -/
theorem leaves_idle (bus : Chip) (l : ChipLog) :
    (∀ cmd input, ∃ reply l', (pcdComMF522 bus cmd input).run l = (.returned reply, l') ∧
        LeftIdle l') ∧
      ∃ res l', (pcdAntiColl bus).run l = (.returned res, l') ∧
        ∃ v, lastWrite .Coll l' = some v ∧ v &&& 0x80 = 0x80 := by
  constructor
  · intro cmd input
    obtain ⟨k, -, -, -, ret, info, new, -, -, hrun, hnew⟩ := run_pcdComMF522 bus cmd input l
    exact ⟨_, _, hrun, leftIdle_stopped bus cmd input l (k + 1) hnew⟩
  · obtain ⟨reply, l', -, hrun⟩ := run_pcdAntiColl bus l
    exact ⟨_, _, hrun, _, lastWrite_append_of_some rfl _, or_and_self _ _⟩

/-! ### The checksum -/

theorem checksum_concat (data : List UInt8) (b : UInt8) :
    checksum (data ++ [b]) = checksum data ^^^ b := by
  rw [checksum, List.foldl_append]
  rfl

theorem checksum_cons (b : UInt8) (data : List UInt8) :
    checksum (b :: data) = b ^^^ checksum data := by
  induction data using List.reverseRecOn with
  | nil => exact UInt8.xor_comm 0 b
  | append_singleton data c ih =>
    rw [← List.cons_append, checksum_concat, checksum_concat, ih, UInt8.xor_assoc]

/-- Changing a byte changes the exclusive-or by the difference. -/
theorem checksum_set {data : List UInt8} {i : Nat} {b c : UInt8} (h : data[i]? = some c) :
    checksum (data.set i b) = c ^^^ b ^^^ checksum data := by
  induction data generalizing i with
  | nil => cases h
  | cons x xs ih =>
    cases i with
    | zero =>
      obtain rfl := Option.some.inj h
      rw [List.set_cons_zero, checksum_cons, checksum_cons, UInt8.xor_comm x b, UInt8.xor_assoc,
        ← UInt8.xor_assoc x x, UInt8.xor_self, UInt8.zero_xor]
    | succ i =>
      rw [List.set_cons_succ, checksum_cons, checksum_cons, ih h, ← UInt8.xor_assoc,
        UInt8.xor_comm x, UInt8.xor_assoc]

/-- The bytes that are accepted. -/
def Accepted (data : List UInt8) : Prop :=
  5 ≤ data.length ∧ checksum (data.take 4) = data.getD 4 0

theorem cardIdOf_eq_ok_iff {data : List UInt8} {id : String} :
    cardIdOf data = .ok id ↔ Accepted data ∧ id = (littleEndian (data.take 4)).repr := by
  unfold cardIdOf Accepted
  split_ifs with hlen hsum
  · constructor
    · exact fun h => nomatch h
    · exact fun h => absurd h.1.1 (by omega)
  · constructor
    · exact fun h => nomatch h
    · exact fun h => absurd h.1.2 hsum
  · constructor
    · intro h
      exact ⟨⟨by omega, not_not.mp hsum⟩, (Except.ok.inj h).symm⟩
    · exact fun h => congrArg Except.ok h.2.symm

/-- Five bytes are accepted if their exclusive-or is 0. -/
theorem accepted_iff_checksum {data : List UInt8} (h : 5 ≤ data.length) :
    Accepted data ↔ checksum (data.take 5) = 0 := by
  have hfifth : data[4]? = some data[4] := List.getElem?_eq_getElem h
  have htake : data.take 5 = data.take 4 ++ [data[4]] := by
    rw [List.take_add_one, hfifth, Option.toList_some]
  rw [Accepted, htake, checksum_concat, UInt8.xor_eq_zero_iff, List.getD_eq_getElem?_getD, hfifth,
    Option.getD_some]
  exact and_iff_right h

/-- **One wrong byte** is found. -/
theorem not_accepted_set {data : List UInt8} (hacc : Accepted data) {i : Nat} (hi : i < 5)
    {b : UInt8} (hb : data[i]? ≠ some b) : ¬ Accepted (data.set i b) := by
  have hlen := hacc.1
  have hget : (data.take 5)[i]? = some data[i] := by
    rw [List.getElem?_take_of_lt hi, List.getElem?_eq_getElem]
  rw [accepted_iff_checksum (by rwa [List.length_set]), List.take_set, checksum_set hget,
    (accepted_iff_checksum hlen).mp hacc, UInt8.xor_zero, UInt8.xor_eq_zero_iff]
  rintro rfl
  exact hb (List.getElem?_eq_getElem (by omega))

/-! ### The id -/

/-- **The canonical decimal text** of a number below `2 ^ 32`. -/
structure Canonical (id : String) (n : Nat) : Prop where
  digits : IsDigits id.toList
  value : decimal id.toList = n
  noZero : 1 < id.toList.length → id.toList.head? ≠ some '0'
  short : id.toList.length ≤ 10

theorem decimal_toDigits (n : Nat) : decimal (Nat.toDigits 10 n) = n :=
  Nat.ofDigitChars_ten_toDigits

/-- Numbers that are not 0 do not begin with a 0. -/
theorem head_toDigits {n : Nat} (h : n ≠ 0) : (Nat.toDigits 10 n).head? ≠ some '0' := by
  induction n using Nat.strong_induction_on with
  | _ n ih =>
    rcases Nat.lt_or_ge n 10 with hlt | hge
    · have hdigit : ∀ d < 10, d ≠ 0 → [Nat.digitChar d].head? ≠ some '0' := by decide
      rw [Nat.toDigits_of_lt_base hlt]
      exact hdigit n hlt h
    · rw [Nat.toDigits_of_base_le (by decide) hge, List.head?_append_of_ne_nil _ Nat.toDigits_ne_nil]
      exact ih (n / 10) (by omega) (by omega)

theorem canonical_repr {n : Nat} (h : n < 2 ^ 32) : Canonical n.repr n where
  digits := by
    rw [Nat.toList_repr]
    exact ⟨Nat.toDigits_ne_nil, fun c hc => Nat.isDigit_of_mem_toDigits (by decide) (by decide) hc⟩
  value := by rw [Nat.toList_repr, decimal_toDigits]
  noZero := by
    rw [Nat.toList_repr]
    intro hlen
    apply head_toDigits
    rintro rfl
    exact absurd hlen (by decide)
  short := by
    rw [Nat.toList_repr, Nat.length_toDigits_le_iff (by decide) (by decide)]
    omega

theorem littleEndian_lt (data : List UInt8) : littleEndian data < 256 ^ data.length := by
  have hlt := Nat.ofDigits_lt_base_pow_length (b := 256) (l := data.map UInt8.toNat) (by decide) ?_
  · rwa [List.length_map] at hlt
  · intro x hx
    obtain ⟨b, -, rfl⟩ := List.mem_map.mp hx
    exact b.toNat_lt

/-- As many bytes are given by their number. -/
theorem littleEndian_inj {xs ys : List UInt8} (hlen : xs.length = ys.length) :
    littleEndian xs = littleEndian ys ↔ xs = ys := by
  have hlt : ∀ zs : List UInt8, ∀ n ∈ zs.map UInt8.toNat, n < 256 := by
    intro zs n hn
    obtain ⟨b, -, rfl⟩ := List.mem_map.mp hn
    exact b.toNat_lt
  constructor
  · intro h
    have hmap := Nat.ofDigits_inj_of_len_eq (by decide) (by simpa using hlen) (hlt xs) (hlt ys) h
    exact List.map_injective_iff.mpr (fun _ _ => UInt8.toNat_inj.mp) hmap
  · rintro rfl
    rfl

theorem repr_inj {m n : Nat} : m.repr = n.repr ↔ m = n := by
  constructor
  · intro h
    rw [← decimal_toDigits m, ← decimal_toDigits n, ← Nat.toList_repr, ← Nat.toList_repr, h]
  · rintro rfl
    rfl

/-! ### Faithful ids -/

/-- The exchange of `pcdAntiColl` succeeds with the bytes `data`. -/
def Exchanged (bus : Chip) (l : ChipLog) (data : List UInt8) : Prop :=
  ∃ bits l', (pcdComMF522 bus .Transceive [0x93, 0x20]).run (begun bus l)
    = (.returned (.eok, some (data, bits)), l')

/-- What `pcdAntiColl` returns. -/
def Returns (bus : Chip) (l : ChipLog) (res : Except RetVal String) : Prop :=
  ∃ l', (pcdAntiColl bus).run l = (.returned res, l')

theorem returns_of_exchanged {bus : Chip} {l : ChipLog} {data : List UInt8}
    (h : Exchanged bus l data) : Returns bus l (cardIdOf data) := by
  obtain ⟨bits, l', hrun⟩ := h
  obtain ⟨reply, l'', hrun', hcall⟩ := run_pcdAntiColl bus l
  obtain ⟨hreply, -⟩ := Prod.mk.inj (hrun.symm.trans hrun')
  obtain rfl := Outcome.returned.inj hreply
  exact ⟨_, hcall⟩

/-- What it returns is one thing. -/
theorem Returns.unique {bus : Chip} {l : ChipLog} {res res' : Except RetVal String}
    (h : Returns bus l res) (h' : Returns bus l res') : res = res' := by
  obtain ⟨l', hrun⟩ := h
  obtain ⟨l'', hrun'⟩ := h'
  exact Outcome.returned.inj (Prod.mk.inj (hrun.symm.trans hrun')).1

/-- **A faithful id** for the bytes of an exchange: `res` is an id exactly if there are five of
    them and the exclusive-or of four is the fifth; it is the decimal text of the four, lowest
    first; two accepted answers give one id exactly if their first four bytes agree; and with one
    of the first five bytes changed there is no id. -/
structure FaithfulId (data : List UInt8) (res : Except RetVal String) : Prop where
  checked : (∃ id, res = .ok id) ↔ Accepted data
  canonical : ∀ id, res = .ok id → Canonical id (littleEndian (data.take 4))
  distinct : ∀ id, res = .ok id → ∀ bus l data' id', Exchanged bus l data' →
    Returns bus l (.ok id') → (id = id' ↔ data.take 4 = data'.take 4)
  found : ∀ id, res = .ok id → ∀ bus l i b, i < 5 → data[i]? ≠ some b →
    Exchanged bus l (data.set i b) → ∃ e, Returns bus l (.error e)

theorem length_take_of_accepted {data : List UInt8} (h : Accepted data) :
    (data.take 4).length = 4 := by
  have hlen := h.1
  rw [List.length_take]
  omega

theorem faithfulId_cardIdOf (data : List UInt8) : FaithfulId data (cardIdOf data) where
  checked := by simp only [cardIdOf_eq_ok_iff, exists_and_left, exists_eq, and_true]
  canonical := by
    intro id hid
    obtain ⟨hacc, rfl⟩ := cardIdOf_eq_ok_iff.mp hid
    apply canonical_repr
    refine Nat.lt_of_lt_of_eq (littleEndian_lt _) ?_
    rw [length_take_of_accepted hacc]
    rfl
  distinct := by
    intro id hid bus l data' id' hex hret
    obtain ⟨hacc, rfl⟩ := cardIdOf_eq_ok_iff.mp hid
    have hid' := (returns_of_exchanged hex).unique hret
    obtain ⟨hacc', rfl⟩ := cardIdOf_eq_ok_iff.mp hid'
    rw [repr_inj, littleEndian_inj]
    rw [length_take_of_accepted hacc, length_take_of_accepted hacc']
  found := by
    intro id hid bus l i b hi hb hex
    have hnot := not_accepted_set (cardIdOf_eq_ok_iff.mp hid).1 hi hb
    have hret := returns_of_exchanged hex
    cases hcard : cardIdOf (data.set i b) with
    | ok id' => exact absurd (cardIdOf_eq_ok_iff.mp hcard).1 hnot
    | error e =>
      rw [hcard] at hret
      exact ⟨e, hret⟩

/-- **Ids are faithful and checked**, whatever bytes a successful exchange has received. -/
theorem id_faithful {bus : Chip} {l : ChipLog} {data : List UInt8} (h : Exchanged bus l data) :
    ∃ res, Returns bus l res ∧ FaithfulId data res :=
  ⟨_, returns_of_exchanged h, faithfulId_cardIdOf data⟩

/-- Whatever bytes there are in the FIFO, they are received. -/
theorem exchanged_fifoChip {fifo : List UInt8} (hlen : fifo.length < 256) (l : ChipLog) :
    Exchanged (fifoChip fifo 0) l fifo := by
  obtain ⟨k, -, hbefore, -, info, l', hrun, -⟩ :=
    run_polled (fifoChip fifo 0) .Transceive [0x93, 0x20] (begun (fifoChip fifo 0) l)
  have hdone : done .Transceive 0x30 ≠ false := by decide
  obtain rfl : k = 0 := by
    by_contra hk
    exact hdone (hbefore 0 (Nat.pos_of_ne_zero hk))
  have hirq : irqAt (fifoChip fifo 0) .Transceive [0x93, 0x20] (begun (fifoChip fifo 0) l) 0
      = 0x30 := rfl
  have herror : errorAt (fifoChip fifo 0) .Transceive [0x93, 0x20] (begun (fifoChip fifo 0) l) 1
      = 0 := rfl
  have hcode : code .Transceive 0x30 (999 - 0) 0 = .eok := by decide
  rw [hirq, herror, hcode] at hrun
  obtain ⟨rfl, -⟩ := run_received (answers_fifoChip hlen rfl) hrun
  exact ⟨_, l', hrun⟩

theorem id_faithful_card :
    ∃ res, Returns (fifoChip [0xde, 0xad, 0xbe, 0xef, 0x22] 0) [] res ∧
      FaithfulId [0xde, 0xad, 0xbe, 0xef, 0x22] res :=
  id_faithful (exchanged_fifoChip (by decide) [])

example : cardIdOf [0xde, 0xad, 0xbe, 0xef, 0x22] = .ok "4022250974" := by decide

end RtCharger.Devices.Pcd
