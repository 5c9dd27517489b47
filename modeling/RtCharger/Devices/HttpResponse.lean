import RtCharger.Devices.Http
import RtCharger.Lib.StepSystem

namespace RtCharger.Devices

open Effect OneHot StepSystem RtCharger.Kernel RtCharger.Net RtCharger.Os RtCharger.Utilities

/-!
# Reassembling a response

The modem cuts a response into `+HTTPRESPC` lines; the handler of the URC appends the bytes of
each, and sets the event of the slot at the last one.

* `ContentLine` — a line with the fields of a chunk, each of them well formed;
* `run_handle_line` — what the handler does with a line, from the text to the event;
* `Exchange.step` — lines and the requester's wait in any order;
* `response_reassembled_iff` — the requester gets the response if and only if the event of its
  slot is clear when the exchange begins.
-/

namespace Http

variable {Tid : Type} {s : Fin kSlots}

/-- A line `+HTTPRESPC:s,flag,len,blen,hex(chunk)`, with what the variables of `parse<int>` hold
    while it is handled. -/
structure ContentLine (s : Fin kSlots) where
  chunk : List UInt8
  flag : Int
  len : Int
  blen : Int
  slotText : Text
  flagText : Text
  lenText : Text
  blenText : Text
  hex : Text
  uninitialised : Nat → Int
  chunk_ne : chunk ≠ []
  slot_num : IsNumeral slotText s.val
  flag_num : IsNumeral flagText flag
  flag_min : intMin ≤ flag
  flag_max : flag ≤ intMax
  len_num : IsNumeral lenText len
  blen_num : IsNumeral blenText blen
  hex_chunk : IsHex chunk hex

namespace ContentLine

/-- What stands between the prefix and the suffix. -/
def body (l : ContentLine s) : Text :=
  l.slotText ++ ',' :: (l.flagText ++ ',' :: (l.lenText ++ ',' :: (l.blenText ++ ',' :: l.hex)))

/-- The line. -/
def text (l : ContentLine s) : Text := "+HTTPRESPC:".toList ++ l.body ++ "\r\n".toList

/-- Cut at the commas, at most five times. -/
theorem split_body (l : ContentLine s) :
    split ',' ((6 : Nat) - 1 : Int) l.body
      = [l.slotText, l.flagText, l.lenText, l.blenText, l.hex] := by
  have hcomma : ∀ {t : Text} {n : Int}, IsNumeral t n → ',' ∉ t :=
    fun h => h.not_mem (by decide) (by decide)
  have hhex : ',' ∉ l.hex := l.hex_chunk.not_mem (.inl (by decide))
  rw [split, body, splitFrom_field (hcomma l.slot_num) (by decide),
    splitFrom_field (hcomma l.flag_num) (by decide), splitFrom_field (hcomma l.len_num) (by decide),
    splitFrom_field (hcomma l.blen_num) (by decide), splitFrom_last hhex]
  rfl

/-- The hex digits of a chunk, which is not empty, are left as they are. -/
theorem preprocessArg_hex (l : ContentLine s) (opt : Options) :
    preprocessArg l.hex opt = some l.hex := by
  have hne : l.hex ≠ [] := by
    intro hnil
    have hlen := l.hex_chunk.length_eq
    rw [hnil, List.length_nil] at hlen
    have hpos := List.length_pos_iff.mpr l.chunk_ne
    omega
  exact preprocessArg_of_not_mem hne (l.hex_chunk.not_mem (.inl (by decide)))
    (l.hex_chunk.not_mem (.inl (by decide))) opt

/-- The arguments of the callback. -/
def args (l : ContentLine s) : List (Arg (Fin kSlots)) :=
  [.emitter, .slot s, .int l.flag, .int (parseInt l.lenText (l.uninitialised 2)),
    .int (parseInt l.blenText (l.uninitialised 3)), .view l.hex]

/-- The fields are dealt to the parameters; the emitter takes none. -/
theorem run_args (l : ContentLine s) {http : Http Tid} {flow : Flow}
    (hlive : http.slots s = some flow) :
    (ArgProvider.all ((responseProbe Tid).slots.map fun slots => slots http) kDefaultOpt l.uninitialised
        (responseProbe Tid).params).run
        ⟨[l.slotText, l.flagText, l.lenText, l.blenText, l.hex], 0, none⟩
      = (.returned l.args,
          ⟨[l.slotText, l.flagText, l.lenText, l.blenText, l.hex], 5, some s.val⟩) := by
  have hflag : parseInt l.flagText (l.uninitialised 1) = l.flag :=
    parseInt_of_isNumeral l.flag_num l.flag_min l.flag_max _
  refine run_all_cons (run_next_emitter rfl (preprocessArg_of_isNumeral l.slot_num _)) ?_
  refine run_all_cons (run_next_live hlive (by decide) rfl l.slot_num) ?_
  refine run_all_cons (run_next_int rfl (preprocessArg_of_isNumeral l.flag_num _) hflag) ?_
  refine run_all_cons (run_next_int rfl (preprocessArg_of_isNumeral l.len_num _) rfl) ?_
  refine run_all_cons (run_next_int rfl (preprocessArg_of_isNumeral l.blen_num _) rfl) ?_
  exact run_all_cons (run_next_view rfl (l.preprocessArg_hex _)) run_all_nil

end ContentLine

/-! ### What the handler does with a line -/

/-- The component after the bytes of a chunk were appended to the response of its flow. -/
def append (http : Http Tid) (s : Fin kSlots) (chunk : List UInt8) : Http Tid :=
  { http with
    slots := Function.update http.slots s
      ((http.slots s).map fun flow => { flow with response := flow.response ++ chunk }) }

/-- The component after the event of a slot was set. -/
def raise (http : Http Tid) (s : Fin kSlots) : Http Tid :=
  { http with event := http.event.set (oneHot (doneBit s)) }

/-- **What the handler does with a line**: it appends the chunk, and sets the event of the slot
    if the flag is zero. -/
theorem run_handle_line (l : ContentLine s) {http : Http Tid} {flow : Flow}
    (hlive : http.slots s = some flow) :
    ((responseProbe Tid).handle l.uninitialised l.text).run http
      = (.returned (), if l.flag = 0 then (http.append s l.chunk).raise s
                       else http.append s l.chunk) := by
  have hcall : (onResponseContent l.args).run http
      = (.returned ⟨[], if l.flag = 0 then [responseContentDone] else []⟩,
          http.append s l.chunk) := by
    show (onResponseContent l.args) http = _
    simp [onResponseContent, ContentLine.args, appendBuf, hexToAscii_of_isHex l.hex_chunk, bind,
      Comp.bind, ofOption, pure, modifyState, append]
  have hsplit : split ',' (((responseProbe Tid).params.length : Int) - 1) l.body
      = [l.slotText, l.flagText, l.lenText, l.blenText, l.hex] := l.split_body
  have hargs := l.run_args hlive
  rw [← hsplit] at hargs
  refine run_handle hargs hcall ?_
  by_cases hflag : l.flag = 0
  · simp only [hflag, if_true]
    let emitted : Emitted := ⟨[], [responseContentDone]⟩
    have hone : emitted.result ++ (responseProbe Tid).offset.toList ++ emitted.events
        = [responseContentDone] := rfl
    have hbit : responseContentDone + (some (s.val : Int)).getD 0 = (doneBit s).val :=
      Int.zero_add _
    exact run_thenSet_one rfl hone hbit _
  · simp only [hflag, if_false]
    exact run_thenSet_none rfl _ _

/-! ### An exchange -/

/-- Where the requester is: `AT+HTTPSEND` is done; suspended in `waitResponse`; released from it;
    or left it by an exception. -/
inductive Requester where
  | sent
  | suspended
  | released
  | failed
deriving DecidableEq, Repr

/-- The component and the requester. -/
structure Exchange (Tid : Type) where
  http : Http Tid
  requester : Requester

/-- What happens: a line arrives, the requester calls `waitResponse`, or its time runs out. -/
inductive Input (s : Fin kSlots) where
  | line (l : ContentLine s)
  | wait
  | timeout

/-- The lines of a sequence of inputs. -/
def linesOf (as : List (Input s)) : List (ContentLine s) :=
  as.filterMap fun
    | .line l => some l
    | _       => none

section Step

variable [DecidableEq Tid]

/-- What the handler did to the component resumes the requester if it resumes the thread `t`. -/
def Exchange.handled (t : Tid) (x : Exchange Tid) :
    Outcome Exn Unit × Http Tid → Option (Exchange Tid)
  | (.returned _, http) =>
    let woken := http.event.resumed.drop x.http.event.resumed.length
    some ⟨http, if x.requester = .suspended ∧ t ∈ woken then .released else x.requester⟩
  | _ => none

/-- The requester calls `waitResponse`. -/
def Exchange.wait (t : Tid) (s : Fin kSlots) (x : Exchange Tid) : Option (Exchange Tid) :=
  if x.requester = .sent then
    match x.http.waitResponse t s with
    | (.received _, http) => some ⟨http, .released⟩
    | (.suspended, http)  => some ⟨http, .suspended⟩
    | (_, http)           => some ⟨http, .failed⟩
  else none

/-- The requester's time runs out. -/
def Exchange.timeout (t : Tid) (x : Exchange Tid) : Option (Exchange Tid) :=
  if x.requester = .suspended then
    (rtThreadTimeout x.http.event.object t).map fun object =>
      ⟨{ x.http with event := { x.http.event with object := object } }, .failed⟩
  else none

/-- One input of the exchange on slot `s` by the thread `t`. -/
def Exchange.step (t : Tid) (s : Fin kSlots) (x : Exchange Tid) :
    Input s → Option (Exchange Tid)
  | .line l  => x.handled t (((responseProbe Tid).handle l.uninitialised l.text).run x.http)
  | .wait    => x.wait t s
  | .timeout => x.timeout t

/-- A call of `waitResponse` that finds the bit set. -/
theorem step_wait_set {t : Tid} {x : Exchange Tid} (hsent : x.requester = .sent)
    (hbit : x.http.event.isSet (doneBit s) = true) :
    x.step t s .wait
      = some ⟨{ x.http with event := x.http.event.take (doneBit s) }, .released⟩ := by
  rw [Exchange.step, Exchange.wait, if_pos hsent, waitResponse_eq, if_pos hbit]

/-- A call of `waitResponse` that suspends its caller. -/
theorem step_wait_clear {t : Tid} {x : Exchange Tid} (hsent : x.requester = .sent)
    (hbit : ¬x.http.event.isSet (doneBit s) = true) :
    x.step t s .wait
      = some ⟨{ x.http with event := x.http.event.suspend t (doneBit s) }, .suspended⟩ := by
  rw [Exchange.step, Exchange.wait, if_pos hsent, waitResponse_eq, if_neg hbit]

end Step

/-! ### The invariant of an exchange -/

/-- The exchange that began with the component `start` and has `total` lines, after the lines
    `done`: the bytes of these were appended to the response `old`; before the last line no event
    was raised, the bit is clear and the requester is not released; and if nobody else was
    suspended, the requester is not when all lines are done. -/
structure Assembling (t : Tid) (start : Http Tid) (old : List UInt8) (total : Nat)
    (done : List (ContentLine s)) (x : Exchange Tid) : Prop where
  flow : ∃ f, x.http.slots s = some f ∧ f.response = old ++ done.flatMap ContentLine.chunk
  quiet : done.length < total → x.http.event.raised = start.event.raised ∧
    x.http.event.isSet (doneBit s) = false ∧ x.requester ≠ .released
  alone : start.event.object.suspendThread = [] → x.http.event.object.suspendThread =
    if x.requester = .suspended then [⟨t, oneHot (doneBit s), andClear, true⟩] else []
  awake : start.event.object.suspendThread = [] → total ≤ done.length → x.requester ≠ .suspended ∧
    (x.requester = .sent → x.http.event.isSet (doneBit s) = true)

variable {t : Tid} {start : Http Tid} {old : List UInt8} {total : Nat}
  {done : List (ContentLine s)} {x x' : Exchange Tid}

/-- The flow after one more chunk. -/
theorem Assembling.flow_append (h : Assembling t start old total done x) (l : ContentLine s) :
    ∃ f, (x.http.append s l.chunk).slots s = some f ∧
      f.response = old ++ (done ++ [l]).flatMap ContentLine.chunk := by
  obtain ⟨f, hf, hresponse⟩ := h.flow
  refine ⟨{ f with response := f.response ++ l.chunk }, ?_, ?_⟩
  · simp [append, hf]
  · rw [List.flatMap_append, ← List.append_assoc, ← hresponse]
    simp

variable [DecidableEq Tid]

/-- A line that is not the last one. -/
theorem Assembling.line (h : Assembling t start old total done x) {l : ContentLine s}
    (hflag : l.flag ≠ 0) (hmore : done.length + 1 < total)
    (hstep : x.step t s (.line l) = some x') : Assembling t start old total (done ++ [l]) x' := by
  obtain ⟨f, hf, -⟩ := h.flow
  have hrun := run_handle_line l hf
  rw [if_neg hflag] at hrun
  have hsame : (x.http.append s l.chunk).event.resumed.drop x.http.event.resumed.length = [] := by
    simp [append]
  simp only [Exchange.step, hrun, Exchange.handled, hsame, List.not_mem_nil, and_false, if_false,
    Option.some.injEq] at hstep
  subst hstep
  have hlen : (done ++ [l]).length = done.length + 1 := by simp
  refine ⟨h.flow_append l, fun _ => h.quiet (by omega), h.alone, fun _ hall => ?_⟩
  omega

/-- The last line. -/
theorem Assembling.last (h : Assembling t start old total done x) {l : ContentLine s}
    (hflag : l.flag = 0) (hlast : done.length + 1 = total)
    (hstep : x.step t s (.line l) = some x') : Assembling t start old total (done ++ [l]) x' := by
  obtain ⟨f, hf, -⟩ := h.flow
  have hrun := run_handle_line l hf
  rw [if_pos hflag] at hrun
  have hclear := (h.quiet (by omega)).2.1
  simp only [Exchange.step, hrun, Exchange.handled, Option.some.injEq] at hstep
  subst hstep
  have hlen : (done ++ [l]).length = done.length + 1 := by simp
  have hevent : ((x.http.append s l.chunk).raise s).event
      = x.http.event.set (oneHot (doneBit s)) := rfl
  refine ⟨h.flow_append l, fun _ => by omega, fun halone => ?_, fun halone _ => ?_⟩
  · have hlist := h.alone halone
    by_cases hsusp : x.requester = .suspended
    · rw [if_pos hsusp] at hlist
      obtain ⟨hnobody, hresumed, -⟩ := EventSet.set_suspended hlist hclear
      simp [hevent, hnobody, hresumed, hsusp]
    · rw [if_neg hsusp] at hlist
      obtain ⟨hnobody, -⟩ := EventSet.set_unsuspended hlist (doneBit s)
      simp [hevent, hnobody, hsusp]
  · have hlist := h.alone halone
    by_cases hsusp : x.requester = .suspended
    · rw [if_pos hsusp] at hlist
      obtain ⟨-, hresumed, -⟩ := EventSet.set_suspended hlist hclear
      simp [hevent, hresumed, hsusp]
    · rw [if_neg hsusp] at hlist
      obtain ⟨-, hbit⟩ := EventSet.set_unsuspended hlist (doneBit s)
      simp [hevent, hsusp, hbit]

/-- The requester calls `waitResponse`; the bit is set only after the last line. -/
theorem Assembling.wait (h : Assembling t start old total done x)
    (hstep : x.step t s .wait = some x') : Assembling t start old total done x' := by
  by_cases hsent : x.requester = .sent
  · have hrunning : x.requester ≠ .suspended := by simp [hsent]
    by_cases hbit : x.http.event.isSet (doneBit s) = true
    · rw [step_wait_set hsent hbit, Option.some.injEq] at hstep
      subst hstep
      refine ⟨h.flow, fun hmore => ?_, fun halone => ?_, fun _ _ => by simp⟩
      · rw [(h.quiet hmore).2.1] at hbit
        cases hbit
      · have hlist := h.alone halone
        rw [if_neg hrunning] at hlist
        exact hlist
    · rw [step_wait_clear hsent hbit, Option.some.injEq] at hstep
      subst hstep
      refine ⟨h.flow, fun hmore => ?_, fun halone => ?_, fun halone hall => ?_⟩
      · obtain ⟨hraised, hclear, -⟩ := h.quiet hmore
        exact ⟨hraised, hclear, by simp⟩
      · have hlist := h.alone halone
        rw [if_neg hrunning] at hlist
        show x.http.event.object.suspendThread ++ _ = _
        rw [hlist]
        rfl
      · exact absurd ((h.awake halone hall).2 hsent) hbit
  · simp [Exchange.step, Exchange.wait, hsent] at hstep

/-- The requester's time runs out. -/
theorem Assembling.timeout (h : Assembling t start old total done x)
    (hstep : x.step t s .timeout = some x') : Assembling t start old total done x' := by
  by_cases hsusp : x.requester = .suspended
  · simp only [Exchange.step, Exchange.timeout, hsusp, if_true] at hstep
    obtain ⟨event, hevent, rfl⟩ := Option.map_eq_some_iff.mp hstep
    obtain ⟨-, rfl⟩ := rtThreadTimeout_some hevent
    refine ⟨h.flow, fun hmore => ?_, fun halone => ?_, fun _ _ => by simp⟩
    · obtain ⟨hraised, hclear, -⟩ := h.quiet hmore
      exact ⟨hraised, hclear, by simp⟩
    · have hlist := h.alone halone
      rw [if_pos hsusp] at hlist
      simp [hlist]
  · simp [Exchange.step, Exchange.timeout, hsusp] at hstep

/-! ### Whole exchanges -/

theorem linesOf_append (as bs : List (Input s)) : linesOf (as ++ bs) = linesOf as ++ linesOf bs :=
  List.filterMap_append

/-- Every input keeps the invariant, while the lines come in order. -/
theorem Assembling.step {initial : List (ContentLine s)} {final : ContentLine s}
    (hinitial : ∀ l ∈ initial, l.flag ≠ 0) (hfinal : final.flag = 0) {a : Input s}
    (h : Assembling t start old (initial ++ [final]).length done x)
    (horder : done ++ linesOf [a] <+: initial ++ [final]) (hstep : x.step t s a = some x') :
    Assembling t start old (initial ++ [final]).length (done ++ linesOf [a]) x' := by
  cases a with
  | line l =>
    have hline : done ++ [l] <+: initial ++ [final] := horder
    show Assembling t start old _ (done ++ [l]) x'
    rcases List.prefix_concat_iff.mp hline with heq | hmore
    · obtain ⟨rfl, hl⟩ := List.append_inj' heq rfl
      cases hl
      exact h.last hfinal (by simp) hstep
    · have hmem : l ∈ initial := hmore.mem (by simp)
      have hlen := hmore.length_le
      simp only [List.length_append, List.length_singleton] at hlen
      refine h.line (hinitial l hmem) ?_ hstep
      simp only [List.length_append, List.length_singleton]
      omega
  | wait =>
    show Assembling t start old _ (done ++ []) x'
    rw [List.append_nil]
    exact h.wait hstep
  | timeout =>
    show Assembling t start old _ (done ++ []) x'
    rw [List.append_nil]
    exact h.timeout hstep

/-- The invariant holds after any part of an exchange that begins with a clear bit. -/
theorem assembling_of_runs {initial : List (ContentLine s)} {final : ContentLine s}
    (hinitial : ∀ l ∈ initial, l.flag ≠ 0) (hfinal : final.flag = 0) {flow : Flow}
    (hlive : start.slots s = some flow) (hclear : start.event.isSet (doneBit s) = false)
    {as : List (Input s)} (hrun : Runs (Exchange.step t s) anyAction ⟨start, .sent⟩ as x)
    (horder : linesOf as <+: initial ++ [final]) :
    Assembling t start flow.response (initial ++ [final]).length (linesOf as) x := by
  induction hrun with
  | nil =>
    refine ⟨⟨flow, hlive, by simp [linesOf]⟩, fun _ => ⟨rfl, hclear, by simp⟩, fun halone => ?_, ?_⟩
    · rw [if_neg (by simp)]
      exact halone
    · intro _ hall
      simp [linesOf] at hall
  | @snoc as u v a _ _ hstep ih =>
    rw [linesOf_append] at horder ⊢
    have hbefore := ih ((List.prefix_append _ _).trans horder)
    exact hbefore.step hinitial hfinal horder hstep

/-- The lines alone are an exchange, which appends their bytes. -/
theorem exists_runs_lines (t : Tid) (lines : List (ContentLine s)) {flow : Flow}
    (hlive : x.http.slots s = some flow) :
    ∃ x' f, Runs (Exchange.step t s) anyAction x (lines.map .line) x' ∧
      x'.http.slots s = some f ∧ f.response = flow.response ++ lines.flatMap ContentLine.chunk := by
  induction lines generalizing x flow with
  | nil => exact ⟨x, flow, .nil, hlive, by simp⟩
  | cons l lines ih =>
    have hrun := run_handle_line l hlive
    obtain ⟨u, hstep⟩ : ∃ u, x.step t s (.line l) = some u := by
      rw [Exchange.step, hrun, Exchange.handled]
      exact ⟨_, rfl⟩
    have hu : u.http.slots s = some { flow with response := flow.response ++ l.chunk } := by
      rw [Exchange.step, hrun, Exchange.handled, Option.some.injEq] at hstep
      rw [← hstep]
      by_cases hflag : l.flag = 0 <;> simp [hflag, raise, append, hlive]
    obtain ⟨x', f, hrest, hf, hresponse⟩ := ih hu
    refine ⟨x', f, (Runs.single trivial hstep).append hrest, hf, ?_⟩
    rw [hresponse, List.flatMap_cons, List.append_assoc]

theorem linesOf_map (lines : List (ContentLine s)) :
    linesOf (lines.map Input.line) = lines := by
  induction lines with
  | nil => rfl
  | cons l lines ih =>
    rw [List.map_cons, ← List.singleton_append, linesOf_append, ih]
    rfl

/-- The response is reassembled, whatever the requester does: before the last line no event is
    raised; after the last line, and whenever the requester is released, `getResponse` gives the
    bytes of all lines; and after the last line the requester is not kept waiting, if nobody else
    was waiting when the exchange began. -/
def Reassembles (t : Tid) (start : Http Tid) (lines : List (ContentLine s)) : Prop :=
  ∀ as x, Runs (Exchange.step t s) anyAction ⟨start, .sent⟩ as x → linesOf as <+: lines →
    ((linesOf as).length < lines.length → x.http.event.raised = start.event.raised) ∧
    (linesOf as = lines ∨ x.requester = .released → ∃ flow, x.http.slots s = some flow ∧
      flow.getResponse = lines.flatMap ContentLine.chunk) ∧
    (linesOf as = lines → start.event.object.suspendThread = [] → x.requester ≠ .suspended)

/-- A requester that finds the bit set before the first line is released too early: its flow has
    none of the bytes yet. -/
theorem not_reassembles_of_set {lines : List (ContentLine s)} (hlines : lines ≠ []) {flow : Flow}
    (hlive : start.slots s = some flow) (hnew : flow.response = [])
    (hset : start.event.isSet (doneBit s) = true) : ¬Reassembles t start lines := by
  intro hall
  have hsent : (⟨start, .sent⟩ : Exchange Tid).requester = .sent := rfl
  obtain ⟨-, hreleased, -⟩ :=
    hall [.wait] _ (.single trivial (step_wait_set hsent hset)) List.nil_prefix
  obtain ⟨flow', hlive', hresponse⟩ := hreleased (.inr rfl)
  have hsame : flow' = flow := Option.some.inj (hlive'.symm.trans hlive)
  rw [hsame, Flow.getResponse, hnew] at hresponse
  obtain ⟨l, rest, rfl⟩ := List.exists_cons_of_ne_nil hlines
  rw [List.flatMap_cons] at hresponse
  exact l.chunk_ne (List.append_eq_nil_iff.mp hresponse.symm).1

/-- **When a response is reassembled.**  For every way of cutting the bytes into chunks, every
    flow that lives in the slot and whatever the requester does, it is if and only if, when the
    exchange begins, the event of the slot is clear and the flow has received nothing yet. -/
theorem response_reassembled_iff (t : Tid) (start : Http Tid) (s : Fin kSlots) (flow : Flow)
    (hlive : start.slots s = some flow) (initial : List (ContentLine s)) (final : ContentLine s)
    (hinitial : ∀ l ∈ initial, l.flag ≠ 0) (hfinal : final.flag = 0) :
    Reassembles t start (initial ++ [final]) ↔
      start.event.isSet (doneBit s) = false ∧ flow.response = [] := by
  constructor
  · intro hall
    have hnew : flow.response = [] := by
      obtain ⟨x, f, hrun, hf, hresponse⟩ :=
        exists_runs_lines (x := ⟨start, .sent⟩) t (initial ++ [final]) hlive
      have hlines := linesOf_map (initial ++ [final])
      obtain ⟨-, hbytes, -⟩ := hall _ x hrun ⟨[], by rw [hlines, List.append_nil]⟩
      obtain ⟨f', hf', hall'⟩ := hbytes (.inl hlines)
      have hsame : f' = f := Option.some.inj (hf'.symm.trans hf)
      rw [hsame, Flow.getResponse, hresponse] at hall'
      exact List.append_left_eq_self.mp hall'
    refine ⟨?_, hnew⟩
    cases hbit : start.event.isSet (doneBit s) with
    | false => rfl
    | true => exact absurd hall (not_reassembles_of_set (by simp) hlive hnew hbit)
  · rintro ⟨hclear, hnew⟩ as x hrun horder
    have h := assembling_of_runs hinitial hfinal hlive hclear hrun horder
    have hbytes : linesOf as = initial ++ [final] → ∃ flow, x.http.slots s = some flow ∧
        flow.getResponse = (initial ++ [final]).flatMap ContentLine.chunk := by
      intro hdone
      obtain ⟨f, hf, hresponse⟩ := h.flow
      exact ⟨f, hf, by rw [Flow.getResponse, hresponse, hnew, hdone, List.nil_append]⟩
    refine ⟨fun hmore => (h.quiet hmore).1, ?_, fun hdone halone => ?_⟩
    · rintro (hdone | hreleased)
      · exact hbytes hdone
      · by_cases hmore : (linesOf as).length < (initial ++ [final]).length
        · exact absurd hreleased (h.quiet hmore).2.2
        · exact hbytes (horder.eq_of_length_le (Nat.not_lt.mp hmore))
    · exact (h.awake halone (by rw [hdone])).1

/-- The line `+HTTPRESPC:0,0,2,2,4a4B`, the last one of a response. -/
def lastLine : ContentLine slot0 where
  chunk := [0x4a, 0x4b]
  flag := 0
  len := 2
  blen := 2
  slotText := ['0']
  flagText := ['0']
  lenText := ['2']
  blenText := ['2']
  hex := ['4', 'a', '4', 'B']
  uninitialised := fun _ => 0
  chunk_ne := by decide
  slot_num := isNumeral_of_isDigits (by decide) (by decide)
  flag_num := isNumeral_of_isDigits (by decide) (by decide)
  flag_min := by decide
  flag_max := by decide
  len_num := isNumeral_of_isDigits (by decide) (by decide)
  blen_num := isNumeral_of_isDigits (by decide) (by decide)
  hex_chunk := .cons rfl rfl (.cons rfl rfl .nil)

/-- A component with a new flow, whose event was never set. -/
def newHttp : Http Unit :=
  ⟨fun _ => some ⟨slot0, "http://h".toList, "/".toList, []⟩, EventSet.new Unit⟩

/-- Its response is reassembled. -/
theorem new_reassembles : Reassembles () newHttp ([] ++ [lastLine]) :=
  (response_reassembled_iff () newHttp slot0 ⟨slot0, "http://h".toList, "/".toList, []⟩ rfl [] lastLine
    (by simp) rfl).mpr ⟨by decide, rfl⟩

/-- The same component with the flow of the next request, after the last line of the first one
    came once more when its response had been taken. -/
def repeatedHttp : Http Unit :=
  { ((run (Exchange.step () slot0) ⟨newHttp, .sent⟩
      [.line lastLine, .wait, .line lastLine]).getD ⟨newHttp, .sent⟩).http with
    slots := newHttp.slots }

/-- The next response is not reassembled. -/
theorem repeated_not_reassembled : ¬Reassembles () repeatedHttp [lastLine] := by
  have hset : repeatedHttp.event.isSet (doneBit slot0) = true := by decide
  exact not_reassembles_of_set (by simp) rfl rfl hset

end Http

end RtCharger.Devices
