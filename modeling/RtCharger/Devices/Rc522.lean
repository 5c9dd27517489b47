import Mathlib.Data.List.Induction

namespace RtCharger.Devices

/-!
# The card reader

The timer callback of `Rc522`, which polls for a card: `cardId` is the id of the card that was
read, and `contiReqFailedCnt` counts the requests that failed one after the other, so that one
failure does not take a card away.  A request that ends with an error or a time-out says nothing
about the card: the reader is reset, and the failure is not counted.

* `onRun` — the callback;
* `after_spec` — what is known of the reader after any polls;
* `removed_by_two_eio` — when a card is taken to be removed.
-/

/-- What `pcdRequest` returns. -/
inductive RetVal where
  | eok
  | error
  | etimeout
  | eio
deriving DecidableEq, Repr

/-- The number of the code. -/
def RetVal.code : RetVal → Int
  | .eok      => 0
  | .error    => 1
  | .etimeout => 2
  | .eio      => 8

/-- What the chip answers to one poll: to the request, and to `pcdAntiColl` if it is called. -/
structure Poll where
  request : RetVal
  antiColl : Except Int String

/-- The members of `Rc522` that the callback uses, and what `cardId.onChanged` was called with. -/
structure Rc522 where
  cardId : Option String
  contiReqFailedCnt : BitVec 32
  notified : List (Option String)

namespace Rc522

/-- `cardId = newVal`. -/
def setCardId (s : Rc522) (newVal : Option String) : Rc522 :=
  if s.cardId = newVal then s
  else { s with cardId := newVal, notified := s.notified ++ [newVal] }

/-- `timer.onRun`. -/
def onRun (s : Rc522) (poll : Poll) : Rc522 :=
  let retVal := poll.request.code
  -- the reader is reset
  if retVal ≠ 0 ∧ retVal ≠ 8 then s
  else if retVal ≠ RetVal.eok.code then
    let s := { s with contiReqFailedCnt := s.contiReqFailedCnt + 1 }
    if (1#32).slt s.contiReqFailedCnt then s.setCardId none else s
  else
    let s := { s with contiReqFailedCnt := 0 }
    match poll.antiColl with
    | .ok pStr => s.setCardId (some pStr)
    | .error _ => s.setCardId none

/-- The reader after the polls, when the counter started with `cnt`. -/
def after (cnt : BitVec 32) (polls : List Poll) : Rc522 := polls.foldl onRun ⟨none, cnt, []⟩

@[simp] theorem cardId_setCardId (s : Rc522) (v : Option String) : (s.setCardId v).cardId = v := by
  unfold setCardId
  split_ifs with h
  · exact h
  · rfl

@[simp] theorem contiReqFailedCnt_setCardId (s : Rc522) (v : Option String) :
    (s.setCardId v).contiReqFailedCnt = s.contiReqFailedCnt := by
  unfold setCardId
  split_ifs <;> rfl

/-- Assigning what is there already notifies nobody. -/
theorem notified_setCardId_self {s : Rc522} {v : Option String} (h : s.cardId = v) :
    (s.setCardId v).notified = s.notified := by
  rw [setCardId, if_pos h]

theorem after_snoc (cnt : BitVec 32) (polls : List Poll) (poll : Poll) :
    after cnt (polls ++ [poll]) = (after cnt polls).onRun poll := by
  rw [after, List.foldl_append]
  rfl

/-! ### One poll -/

/-- A request that succeeded: the counter starts again, and `cardId` is what was read. -/
theorem onRun_eok (s : Rc522) {p : Poll} (h : p.request = .eok) :
    s.onRun p = { s with contiReqFailedCnt := 0 }.setCardId p.antiColl.toOption := by
  unfold onRun
  rw [h]
  cases p.antiColl <;> rfl

/-- `RT_EIO` is counted. -/
theorem onRun_eio (s : Rc522) {p : Poll} (h : p.request = .eio) :
    s.onRun p = if (1#32).slt (s.contiReqFailedCnt + 1) then
        { s with contiReqFailedCnt := s.contiReqFailedCnt + 1 }.setCardId none
      else { s with contiReqFailedCnt := s.contiReqFailedCnt + 1 } := by
  unfold onRun
  rw [h]
  rfl

/-- `RT_ERROR` and `RT_ETIMEOUT` change nothing. -/
theorem onRun_reset (s : Rc522) {p : Poll} (h : p.request = .error ∨ p.request = .etimeout) :
    s.onRun p = s := by
  unfold onRun
  rcases h with h | h <;> rw [h] <;> rfl

end Rc522

/-! ### What the polls say -/

/-- The request succeeded. -/
def Poll.ok (p : Poll) : Bool := p.request = .eok

/-- The id that the poll read. -/
def Poll.id? (p : Poll) : Option String := p.antiColl.toOption

/-- The latest poll whose request succeeded. -/
def latestOk (polls : List Poll) : Option Poll := (polls.filter Poll.ok).getLast?

/-- The id that it read. -/
def latestId (polls : List Poll) : Option String := (latestOk polls).bind Poll.id?

/-- The number of polls since then that returned `RT_EIO`. -/
def eioSince (polls : List Poll) : Nat :=
  (polls.reverse.takeWhile fun p => !p.ok).countP fun p => p.request = .eio

theorem latestOk_snoc (polls : List Poll) (p : Poll) :
    latestOk (polls ++ [p]) = if p.ok then some p else latestOk polls := by
  unfold latestOk
  cases hp : p.ok <;> simp [hp]

theorem eioSince_snoc (polls : List Poll) (p : Poll) :
    eioSince (polls ++ [p])
      = if p.ok then 0 else eioSince polls + if p.request = .eio then 1 else 0 := by
  unfold eioSince
  cases hp : p.ok <;> simp [hp, List.countP_cons]

/-! ### Every run -/

namespace Rc522

/-- A failed request leaves an empty `cardId` empty. -/
theorem onRun_eio_of_none {s : Rc522} {p : Poll} (hp : p.request = .eio) (hs : s.cardId = none) :
    (s.onRun p).cardId = none := by
  rw [onRun_eio s hp]
  split_ifs
  · exact cardId_setCardId _ _
  · exact hs

/-- The first failed request after a success is counted and takes nothing away. -/
theorem onRun_eio_first {s : Rc522} {p : Poll} (hp : p.request = .eio)
    (hs : s.contiReqFailedCnt = 0) : s.onRun p = { s with contiReqFailedCnt := 1 } := by
  rw [onRun_eio s hp, hs]
  rfl

/-- The second one empties `cardId`. -/
theorem onRun_eio_second {s : Rc522} {p : Poll} (hp : p.request = .eio)
    (hs : s.contiReqFailedCnt = 1) : (s.onRun p).cardId = none := by
  rw [onRun_eio s hp, hs]
  exact cardId_setCardId _ _

/-- **One poll**, in a reader whose card and counter are as the polls before say. -/
theorem onRun_spec {s : Rc522} {polls : List Poll}
    (hcard : s.cardId = if eioSince polls ≤ 1 then latestId polls else none)
    (hcnt : (latestOk polls).isSome = true → eioSince polls ≤ 1 →
      s.contiReqFailedCnt = BitVec.ofNat 32 (eioSince polls)) (p : Poll) :
    (s.onRun p).cardId
        = (if eioSince (polls ++ [p]) ≤ 1 then latestId (polls ++ [p]) else none) ∧
      ((latestOk (polls ++ [p])).isSome = true → eioSince (polls ++ [p]) ≤ 1 →
        (s.onRun p).contiReqFailedCnt = BitVec.ofNat 32 (eioSince (polls ++ [p]))) := by
  rw [latestId, latestOk_snoc, eioSince_snoc]
  cases hp : p.request with
  | eok =>
    have hok : p.ok = true := by simp [Poll.ok, hp]
    simp [onRun_eok s hp, hok, Poll.id?]
  | eio =>
    have hok : p.ok = false := by simp [Poll.ok, hp]
    simp only [hok, Bool.false_eq_true, if_false, if_true]
    rw [latestId] at hcard
    cases hlatest : latestOk polls with
    | none =>
      have hnone : s.cardId = none := by simpa [hlatest] using hcard
      rw [onRun_eio_of_none hp hnone]
      simp
    | some q =>
      rw [hlatest] at hcard hcnt
      -- the first, the second, or a later failure
      rcases Nat.lt_trichotomy (eioSince polls) 1 with hlt | hone | hgt
      · have hzero : eioSince polls = 0 := by omega
        have hs : s.contiReqFailedCnt = 0 := by simpa [hzero] using hcnt rfl (by omega)
        rw [onRun_eio_first hp hs, hzero]
        exact ⟨by simpa [hzero] using hcard, fun _ _ => rfl⟩
      · have hs : s.contiReqFailedCnt = 1 := by simpa [hone] using hcnt rfl (by omega)
        rw [onRun_eio_second hp hs, hone]
        exact ⟨rfl, fun _ h => absurd h (by omega)⟩
      · have hnone : s.cardId = none := by rw [hcard, if_neg (by omega)]
        rw [onRun_eio_of_none hp hnone, if_neg (by omega)]
        exact ⟨rfl, fun _ h => absurd h (by omega)⟩
  | error =>
    have hok : p.ok = false := by simp [Poll.ok, hp]
    rw [onRun_reset s (Or.inl hp)]
    simpa [hok] using ⟨hcard, hcnt⟩
  | etimeout =>
    have hok : p.ok = false := by simp [Poll.ok, hp]
    rw [onRun_reset s (Or.inr hp)]
    simpa [hok] using ⟨hcard, hcnt⟩

/-- **The reader after any polls**: `cardId` holds what the latest successful request read, until
    `RT_EIO` came twice. -/
theorem after_spec (cnt : BitVec 32) (polls : List Poll) :
    (after cnt polls).cardId = (if eioSince polls ≤ 1 then latestId polls else none) ∧
      ((latestOk polls).isSome = true → eioSince polls ≤ 1 →
        (after cnt polls).contiReqFailedCnt = BitVec.ofNat 32 (eioSince polls)) := by
  induction polls using List.reverseRecOn with
  | nil => exact ⟨rfl, fun h => by cases h⟩
  | append_singleton polls p ih =>
    rw [after_snoc]
    exact onRun_spec ih.1 ih.2 p

/-! ### Debouncing -/

/-- The last two polls both got something other than `RT_EOK`. -/
def LastTwoFailed (polls : List Poll) : Prop :=
  ∃ before p q, polls = before ++ [p, q] ∧ p.ok = false ∧ q.ok = false

/-- A card in the reader is the one that the latest successful request read. -/
def HoldsLatest (cnt : BitVec 32) (polls : List Poll) : Prop :=
  ∀ id, (after cnt polls).cardId = some id → ∃ p, latestOk polls = some p ∧ p.antiColl = .ok id

/-- One failure between two readings of the same card notifies nobody. -/
def QuietOnce (cnt : BitVec 32) (polls : List Poll) : Prop :=
  ∀ before id p q r, polls = before ++ [p, q, r] → p.ok = true → q.ok = false → r.ok = true →
    p.antiColl = .ok id → r.antiColl = .ok id →
      (after cnt polls).notified = (after cnt (before ++ [p])).notified

theorem holdsLatest (cnt : BitVec 32) (polls : List Poll) : HoldsLatest cnt polls := by
  intro id h
  rw [(after_spec cnt polls).1] at h
  split_ifs at h
  obtain ⟨p, hp, hid⟩ := Option.bind_eq_some_iff.mp h
  refine ⟨p, hp, ?_⟩
  cases hcoll : p.antiColl with
  | error e =>
    rw [Poll.id?, hcoll] at hid
    cases hid
  | ok id' =>
    rw [Poll.id?, hcoll] at hid
    cases hid
    rfl

theorem quietOnce (cnt : BitVec 32) (polls : List Poll) : QuietOnce cnt polls := by
  rintro before id p q r rfl hp hq hr hpid hrid
  have hsplit : before ++ [p, q, r] = before ++ [p] ++ [q] ++ [r] := by simp
  have hcard : (after cnt (before ++ [p])).cardId = some id := by
    rw [after_snoc, onRun_eok _ (of_decide_eq_true hp), cardId_setCardId, hpid]
    rfl
  have hcnt : (after cnt (before ++ [p])).contiReqFailedCnt = 0 := by
    rw [after_snoc, onRun_eok _ (of_decide_eq_true hp), contiReqFailedCnt_setCardId]
  rw [hsplit, after_snoc, after_snoc]
  -- the failure moves the counter at most
  obtain ⟨k, hk⟩ : ∃ k, (after cnt (before ++ [p])).onRun q
      = { after cnt (before ++ [p]) with contiReqFailedCnt := k } := by
    cases hreq : q.request with
    | eok      => simp [Poll.ok, hreq] at hq
    | eio      => exact ⟨1, onRun_eio_first hreq hcnt⟩
    | error    => exact ⟨_, onRun_reset _ (Or.inl hreq)⟩
    | etimeout => exact ⟨_, onRun_reset _ (Or.inr hreq)⟩
  rw [hk, onRun_eok _ (of_decide_eq_true hr), hrid]
  exact notified_setCardId_self hcard

/-- **A card is removed by two `RT_EIO`.**  After any polls the reader is empty exactly if the
    latest successful request read no card or `RT_EIO` came twice since, in particular after
    two of them in a row; a request that ends with `RT_ERROR` or `RT_ETIMEOUT` changes neither
    the card nor the count; a card in the reader is the one read last; and one failure between
    two readings of the same card notifies nobody. -/
theorem removed_by_two_eio (cnt : BitVec 32) (polls : List Poll) :
    ((after cnt polls).cardId = none ↔ latestId polls = none ∨ 2 ≤ eioSince polls) ∧
      (∀ before p q, polls = before ++ [p, q] → p.request = .eio → q.request = .eio →
        (after cnt polls).cardId = none) ∧
      (∀ p : Poll, p.request = .error ∨ p.request = .etimeout →
        after cnt (polls ++ [p]) = after cnt polls) ∧
      HoldsLatest cnt polls ∧ QuietOnce cnt polls := by
  have hempty : (after cnt polls).cardId = none ↔ latestId polls = none ∨ 2 ≤ eioSince polls := by
    rw [(after_spec cnt polls).1]
    split_ifs with heio
    · simp [show ¬ 2 ≤ eioSince polls by omega]
    · simp [show 2 ≤ eioSince polls by omega]
  refine ⟨hempty, ?_, ?_, holdsLatest cnt polls, quietOnce cnt polls⟩
  · rintro before p q rfl hp hq
    refine hempty.mpr (Or.inr ?_)
    have hsplit : before ++ [p, q] = before ++ [p] ++ [q] := by simp
    rw [hsplit, eioSince_snoc, eioSince_snoc]
    simp [Poll.ok, hp, hq]
  · intro p hp
    rw [after_snoc, onRun_reset _ hp]

/-- A card that was read stays when the next two requests end with an error. -/
theorem stays_after_two_errors :
    LastTwoFailed [⟨.eok, .ok "7"⟩, ⟨.error, .error 1⟩, ⟨.error, .error 1⟩] ∧
      (after 0 [⟨.eok, .ok "7"⟩, ⟨.error, .error 1⟩, ⟨.error, .error 1⟩]).cardId = some "7" :=
  ⟨⟨[⟨.eok, .ok "7"⟩], _, _, rfl, rfl, rfl⟩, rfl⟩

end Rc522

end RtCharger.Devices
