import RtCharger.Net.AtUrcBuilder
import RtCharger.Utilities.LimitedSlots
import RtCharger.Os.EventSet

namespace RtCharger.Devices

open Effect OneHot RtCharger.Kernel RtCharger.Net RtCharger.Os RtCharger.Utilities

/-!
# The HTTP component: flows and their responses

`Http` of the Air302 modem, as its `+HTTPRESPC` handler and `waitResponse` see it: the live flow
of each slot, with the response received so far, and the event set they share.

* `hexToAscii`, `onResponseContent`, `waitResponse` — the functions of the source;
* `hexToAscii_of_isHex` — hex digits are decoded to the bytes they write.
-/

namespace Http

/-- `kSlots`. -/
def kSlots : Nat := 1

/-- The first slot. -/
def slot0 : Fin kSlots := ⟨0, by decide⟩

/-- `Events::ResponseContentDone`. -/
def responseContentDone : Int := 0

/-- `Http::Flow`, with the host and path of its `UrlResolver`. -/
structure Flow where
  slot : Fin kSlots
  host : Text
  path : Text
  response : List UInt8
deriving DecidableEq, Repr

end Http

/-- `Http`: the slots and the event set. -/
structure Http (Tid : Type) where
  slots : LimitedSlots Http.Flow Http.kSlots
  event : EventSet Tid

namespace Http

variable {Tid : Type}

/-! ### Decoding -/

/-- `result[i] = b`; `none` when there is no such position. -/
def writeAt (result : List UInt8) (i : Nat) (b : UInt8) : Option (List UInt8) :=
  if i < result.length then some (result.set i b) else none

/-- The loop of `hexToAscii`, at `i / 2 = k`: `substr(i, 2)` is one character when only one is
    left. -/
def hexLoop : Text → Nat → List UInt8 → Option (List UInt8)
  | [], _, result           => some result
  | [c], k, result          => writeAt result k (toChar (strtol16 [c]))
  | c :: d :: hex, k, result => do
    let result ← writeAt result k (toChar (strtol16 [c, d]))
    hexLoop hex (k + 1) result

/-- `Flow::hexToAscii`. -/
def hexToAscii (hex : Text) : Option (List UInt8) :=
  hexLoop hex 0 (List.replicate (hex.length / 2) 0)

/-- The loop fills the positions from `k` on. -/
theorem hexLoop_of_isHex {bs : List UInt8} {hex : Text} (h : IsHex bs hex) (done : List UInt8) :
    hexLoop hex done.length (done ++ List.replicate bs.length 0) = some (done ++ bs) := by
  induction h generalizing done with
  | nil => simp [hexLoop]
  | @cons b c d bs hex hhigh hlow _ ih =>
    have hwrite : writeAt (done ++ List.replicate (b :: bs).length 0) done.length
          (toChar (strtol16 [c, d]))
        = some (done ++ [b] ++ List.replicate bs.length 0) := by
      rw [writeAt, if_pos (by simp), toChar_strtol16_pair hhigh hlow]
      simp [List.replicate_succ]
    have hnext := ih (done ++ [b])
    rw [List.length_append, List.length_singleton] at hnext
    rw [hexLoop, hwrite]
    show hexLoop hex (done.length + 1) (done ++ [b] ++ List.replicate bs.length 0) = _
    rw [hnext]
    simp

/-- **Hex digits are decoded to the bytes they write.** -/
theorem hexToAscii_of_isHex {bs : List UInt8} {hex : Text} (h : IsHex bs hex) :
    hexToAscii hex = some bs := by
  have hhalf : hex.length / 2 = bs.length := by
    have hlen := h.length_eq
    omega
  have hloop := hexLoop_of_isHex h []
  rwa [hexToAscii, hhalf]

/-! ### Handling a response line -/

/-- `Flow::appendBuf` of the flow in a slot. -/
def appendBuf (s : Fin kSlots) (buf : Text) : Comp Exn (Http Tid) Unit := do
  let bytes ← ofOption (hexToAscii buf)
  modifyState fun http => { http with
    slots := Function.update http.slots s
      ((http.slots s).map fun flow => { flow with response := flow.response ++ bytes }) }

/-- `onResponseContent`; other argument lists do not have its types. -/
def onResponseContent : List (Arg (Fin kSlots)) → Comp Exn (Http Tid) Emitted
  | [.emitter, .slot flow, .int flag, .int _, .int _, .view buf] => do
    appendBuf flow buf
    pure ⟨[], if flag = 0 then [responseContentDone] else []⟩
  | _ => undefinedBehaviour

/-- The probe of `onUrcBuild`. -/
def responseProbe (Tid : Type) : Probe (Http Tid) (Fin kSlots) where
  urcPrefix := "+HTTPRESPC:".toList
  urcSuffix := "\r\n".toList
  params := [.emitter, .slot, .int, .int, .int, .view]
  callback := onResponseContent
  slots := some fun http slotId => http.slots.acuqire (toSlotType slotId)
  event := some fun e => modifyState fun http => { http with event := http.event.set e }
  offset := none
  opt := kDefaultOpt

/-- `Flow::waitResponse` of the flow in a slot, called by the thread `t`: `EventSet::waitAll`
    of `1 << (Events::ResponseContentDone + slot)` for ten seconds. -/
def waitResponse (http : Http Tid) (t : Tid) (s : Fin kSlots) : Recv × Http Tid :=
  let e := (shiftOne (responseContentDone + s.val)).getD 0#32
  let recv := http.event.waitAll t e 10000
  (recv.1, { http with event := recv.2 })

/-- The bit of the event set that stands for the response in a slot. -/
def doneBit (s : Fin kSlots) : Fin 32 :=
  ⟨s.val, Nat.lt_of_lt_of_le s.isLt (by decide)⟩

/-- The mask that `waitResponse` waits for is that bit. -/
theorem shiftOne_done (s : Fin kSlots) :
    shiftOne (responseContentDone + s.val) = some (oneHot (doneBit s)) := by
  have hlt := (doneBit s).isLt
  have hsum : responseContentDone + (s.val : Int) = (doneBit s).val := Int.zero_add _
  rw [hsum, shiftOne, dif_pos (by omega)]
  congr

/-- `waitResponse` returns at once if the bit of the slot is set, and suspends the caller
    otherwise. -/
theorem waitResponse_eq (http : Http Tid) (t : Tid) (s : Fin kSlots) :
    http.waitResponse t s =
      if http.event.isSet (doneBit s) then
        (.received (http.event.object.set &&& oneHot (doneBit s)),
          { http with event := http.event.take (doneBit s) })
      else (.suspended, { http with event := http.event.suspend t (doneBit s) }) := by
  rw [waitResponse, shiftOne_done, Option.getD_some, EventSet.waitAll_eq _ _ _ (by decide)]
  by_cases hbit : http.event.isSet (doneBit s) = true
  · simp only [hbit, if_true]
  · simp only [hbit, Bool.false_eq_true, if_false]

/-- `Flow::getResponse`. -/
def Flow.getResponse (flow : Flow) : List UInt8 := flow.response

/-! ### The bounds of the decoder -/

/-- The positions that `hexLoop` writes, starting at `i / 2 = k`. -/
def hexIndices : Text → Nat → List Nat
  | [], _           => []
  | [_], k          => [k]
  | _ :: _ :: hex, k => k :: hexIndices hex (k + 1)

/-- Every position that `hexToAscii` writes is in the result, which is half as long as the
    text. -/
def InBounds (hex : Text) : Prop :=
  (∀ i ∈ hexIndices hex 0, i < hex.length / 2) ∧
    ∃ result, hexToAscii hex = some result ∧ result.length = hex.length / 2

/-- Writing keeps the length. -/
theorem writeAt_eq_some {result result' : List UInt8} {i : Nat} {b : UInt8}
    (h : writeAt result i b = some result') :
    i < result.length ∧ result'.length = result.length := by
  unfold writeAt at h
  split_ifs at h with hlt
  cases h
  exact ⟨hlt, List.length_set⟩

/-- The loop ends well exactly when all the positions that it writes are there. -/
theorem hexLoop_isSome_iff (hex : Text) (k : Nat) (result : List UInt8) :
    (hexLoop hex k result).isSome ↔ ∀ i ∈ hexIndices hex k, i < result.length := by
  induction hex, k using hexIndices.induct generalizing result with
  | case1 k => simp [hexLoop, hexIndices]
  | case2 k c =>
    unfold hexLoop hexIndices writeAt
    split_ifs with hlt <;> simp [hlt]
  | case3 c d hex k ih =>
    rw [hexLoop, hexIndices, List.forall_mem_cons]
    cases hwrite : writeAt result k (toChar (strtol16 [c, d])) with
    | none =>
      have hge : ¬ k < result.length := by
        intro hlt
        rw [writeAt, if_pos hlt] at hwrite
        cases hwrite
      simp [hge]
    | some result' =>
      obtain ⟨hlt, hlen⟩ := writeAt_eq_some hwrite
      show (hexLoop hex (k + 1) result').isSome ↔ _
      rw [ih result', hlen]
      exact (and_iff_right hlt).symm

/-- It keeps the length of the result. -/
theorem length_of_hexLoop {hex : Text} {k : Nat} {result result' : List UInt8}
    (h : hexLoop hex k result = some result') : result'.length = result.length := by
  induction hex, k using hexIndices.induct generalizing result with
  | case1 k =>
    cases h
    rfl
  | case2 k c => exact (writeAt_eq_some h).2
  | case3 c d hex k ih =>
    rw [hexLoop] at h
    obtain ⟨next, hwrite, hrest⟩ := Option.bind_eq_some_iff.mp h
    rw [ih hrest]
    exact (writeAt_eq_some hwrite).2

/-- A pair of characters is one position, and so is a single one at the end. -/
theorem mem_hexIndices {hex : Text} {k i : Nat} :
    i ∈ hexIndices hex k ↔ k ≤ i ∧ i < k + (hex.length + 1) / 2 := by
  induction hex, k using hexIndices.induct with
  | case1 k =>
    rw [hexIndices, List.length_nil]
    constructor
    · intro hi
      cases hi
    · intro hi
      omega
  | case2 k c =>
    simp only [hexIndices, List.mem_singleton, List.length_singleton]
    omega
  | case3 c d hex k ih =>
    rw [hexIndices, List.mem_cons, ih]
    simp only [List.length_cons]
    omega

/-- **The decoder stays in bounds** exactly when the number of characters is even. -/
theorem inBounds_iff (hex : Text) : InBounds hex ↔ hex.length % 2 = 0 := by
  have hlast : (∀ i ∈ hexIndices hex 0, i < hex.length / 2) ↔ hex.length % 2 = 0 := by
    simp only [mem_hexIndices]
    constructor
    · intro h
      by_contra hodd
      -- the single character at the end is written behind the last pair
      have hbound := h (hex.length / 2) ⟨by omega, by omega⟩
      omega
    · intro heven i hi
      omega
  have hsome := hexLoop_isSome_iff hex 0 (List.replicate (hex.length / 2) 0)
  rw [List.length_replicate, hlast] at hsome
  unfold InBounds
  rw [hlast]
  constructor
  · exact fun h => h.1
  · intro heven
    obtain ⟨result, hresult⟩ := Option.isSome_iff_exists.mp (hsome.mpr heven)
    refine ⟨heven, result, hresult, ?_⟩
    rw [length_of_hexLoop hresult, List.length_replicate]

/-- A response of one digit is written behind the end of the result, which is empty. -/
theorem responseProbe_odd :
    ¬ InBounds ['a'] ∧
      ((responseProbe Unit).handle (fun _ => 0) "+HTTPRESPC:0,1,1,1,a\r\n".toList
          ⟨fun _ => some ⟨slot0, "http://h".toList, "/".toList, []⟩, .new Unit⟩).1
        = .undefined := by
  constructor
  · rintro ⟨-, result, hresult, -⟩
    cases hresult
  · decide +kernel

end Http

end RtCharger.Devices
