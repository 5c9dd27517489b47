import RtCharger.Net.AtText
import RtCharger.Devices.HttpSend
import Mathlib.Algebra.Ring.Nat

namespace RtCharger.Devices

open Effect RtCharger.Kernel RtCharger.Net RtCharger.Utilities

/-!
# What of a request is sent

A request becomes four commands, two of which have a part of it in them: the host, and the method
with the path and its length.  Headers are rejected, but the body is never asked for.  A URL is
cut as well, by the `%s` at its first NUL and by the send buffer at its end, and only the length
of the path shows how much is missing.

* `Request`, `issued` — the requests, and the commands they become;
* `run_send_accepted` — which commands these are;
* `wire_eq_iff` — which requests become the same texts;
* `differ_wire_iff` — when two different requests can be told apart.
-/

namespace Http

/-! ### Requests and their commands -/

/-- `HttpRequest` with its body; a string is not larger than half of the memory. -/
structure Request extends HttpRequest where
  body : Text
  url_lt : url.length < 2 ^ 31

/-- The URL as it is split. -/
def Request.resolver (r : Request) : UrlResolver :=
  match UrlResolver.parse r.url with
  | .returned u => u
  | _           => ⟨[], []⟩

/-- The host. -/
def Request.host (r : Request) : Text := r.resolver.host

/-- The path. -/
def Request.path (r : Request) : Text := r.resolver.path

/-- The requests differ in something. -/
def Differ (r r' : Request) : Prop :=
  r.host ≠ r'.host ∨ r.path ≠ r'.path ∨ r.method ≠ r'.method ∨ r.headers ≠ r'.headers ∨
    r.body ≠ r'.body

instance (r r' : Request) : Decidable (Differ r r') :=
  inferInstanceAs (Decidable (_ ∨ _ ∨ _ ∨ _ ∨ _))

/-- The commands that `send` issues; it does not call `getBody()`. -/
def issued (modem : Modem) (slots : LimitedSlots Flow kSlots) (r : Request) : List AtCommand :=
  ((send modem r.toHttpRequest).run ⟨slots, []⟩).2.issued

/-- The modem, with a response that comes in time. -/
def Modem.inTime (modem : Modem) : Modem := { modem with wait := .ok }

/-- The request is not rejected: all commands succeed, and `send` returns if the response comes in
    time. -/
def Accepted (modem : Modem) (slots : LimitedSlots Flow kSlots) (r : Request) : Prop :=
  (∀ cmd, modem.exec cmd = .ok) ∧
    ∃ response, ((send modem.inTime r.toHttpRequest).run ⟨slots, []⟩).1 = .returned response

/-! ### Their texts -/

/-- What stands before the host. -/
def createHead (slot : Fin kSlots) : Text :=
  "AT+HTTPCREATE=".toList ++ formatD slot.val ++ ",\"".toList

/-- What stands before the path; its length is a `size_t`. -/
def sendHead (slot : Fin kSlots) (method pathSize : Nat) : Text :=
  "AT+HTTPSEND=".toList ++ formatD slot.val ++ ",".toList ++ formatD method ++ ",".toList
    ++ formatD (BitVec.ofNat 32 pathSize).toInt ++ ",\"".toList

/-- The format of a command with its arguments filled in. -/
def AtCommand.text : AtCommand → Text
  | .httpCreate slot host => createHead slot ++ (cString host ++ "\"".toList)
  | .httpCon slot => "AT+HTTPCON=".toList ++ formatD slot.val
  | .httpSend slot method pathSize path =>
    sendHead slot method pathSize ++ (cString path ++ "\"".toList)
  | .httpDestroy slot => "AT+HTTPDESTROY=".toList ++ formatD slot.val

/-- The texts that the modem gets for a request, without the line ends. -/
def wire (beyond : Nat → Char) (modem : Modem) (slots : LimitedSlots Flow kSlots) (r : Request) :
    List Text :=
  (issued modem slots r).map fun cmd => atVprintf beyond cmd.text

/-- What can be seen of a text that is printed behind `head`: how long it is up to its first NUL,
    and as much of it as fits into the send buffer. -/
def shown (head t : Text) : Nat × Text :=
  ((cString t).length, (cString t).take (atCmdMaxLen - 1 - head.length))

/-- The requests differ in something that is sent. -/
def Distinguished (r r' : Request) : Prop :=
  r.method ≠ r'.method ∨ r.path.length ≠ r'.path.length ∨
    shown (createHead slot0) r.host ≠ shown (createHead slot0) r'.host ∨
    shown (sendHead slot0 r.method.code r.path.length) r.path
      ≠ shown (sendHead slot0 r'.method.code r'.path.length) r'.path

/-! ### The commands of a request -/

section Run

variable {modem : Modem} {slots : LimitedSlots Flow kSlots} {s : Fin kSlots} {flow : Flow}
  {st : Session} {request : HttpRequest}

/-- Sending a request without headers. -/
theorem run_sendRequest (hexec : ∀ cmd, modem.exec cmd = .ok) (hlive : st.slots s = some flow)
    (hheaders : request.headers = []) :
    (sendRequest modem s request).run st
      = (.returned (), issue (.httpSend s request.method.code flow.path.length flow.path) st) := by
  have hflow : (flowIn s).run st = (.returned flow, st) := by
    rw [flowIn, run_bind_returned (run_getState st), hlive, run_ofOption_some]
  have hlength : request.headers.length = 0 := by
    rw [hheaders]
    rfl
  rw [sendRequest, if_pos hlength, run_bind_returned hflow, run_execWith_ok (hexec _)]

/-- Headers are rejected. -/
theorem run_sendRequest_headers (hheaders : request.headers ≠ []) :
    (sendRequest modem s request).run st = (.threw (.std "not implemented"), st) := by
  have hlength : request.headers.length ≠ 0 := fun h => hheaders (List.eq_nil_of_length_eq_zero h)
  rw [sendRequest, if_neg hlength]
  rfl

/-- The wait gives no command, and leaves the flow in its slot. -/
theorem run_waitContent (modem : Modem) (hlive : st.slots s = some flow) :
    ∃ o st', (waitContent modem s).run st = (o, st') ∧ st'.issued = st.issued ∧
      (∃ flow', st'.slots s = some flow') ∧
      (o = .returned () ∨ o = .threw (rtError modem.wait)) := by
  have hslot : (setSlot s ((st.slots s).map fun f =>
      { f with response := f.response ++ modem.content }) st).slots s
        = some { flow with response := flow.response ++ modem.content } := by
    rw [setSlot_self, hlive]
    rfl
  rw [waitContent, run_bind_returned (run_modifyState _ st)]
  by_cases hwait : modem.wait = .ok
  · rw [if_neg (not_not_intro hwait)]
    exact ⟨_, _, rfl, rfl, ⟨_, hslot⟩, .inl rfl⟩
  · rw [if_pos hwait]
    exact ⟨_, _, rfl, rfl, ⟨_, hslot⟩, .inr rfl⟩

/-- Dropping the flow gives one command. -/
theorem run_dropFlow (hexec : ∀ cmd, modem.exec cmd = .ok) (st : Session) :
    (dropFlow modem s).run st = (.returned (), issue (.httpDestroy s) (setSlot s none st)) := by
  rw [dropFlow, run_bind_returned (run_modifyState _ st), run_execWith_ok (hexec _)]

/-- **The part in the scope of the flow** gives three commands, whether or not the response
    comes. -/
theorem issued_scope (hexec : ∀ cmd, modem.exec cmd = .ok) (hlive : st.slots s = some flow)
    (hheaders : request.headers = []) :
    ((inScope (dropFlow modem s) (sendBody modem request s)).run st).2.issued
      = st.issued ++ [.httpCon s, .httpSend s request.method.code flow.path.length flow.path,
          .httpDestroy s] := by
  let sent := issue (.httpSend s request.method.code flow.path.length flow.path)
    (issue (.httpCon s) st)
  have hconnected : (issue (.httpCon s) st).slots s = some flow := hlive
  have hsent : sent.slots s = some flow := hlive
  have hbody : (sendBody modem request s).run st
      = (waitContent modem s >>= fun _ => flowIn s >>= fun f => pure f.getResponse).run sent := by
    rw [sendBody, connect, run_bind_returned (run_execWith_ok (hexec _) st),
      run_bind_returned (run_sendRequest hexec hconnected hheaders)]
  -- the flow is dropped when the response is there, and when the wait has thrown
  obtain ⟨o, st', hwait, hissued, ⟨flow', hflow'⟩, hends⟩ := run_waitContent modem hsent
  have hissued' : st'.issued ++ [AtCommand.httpDestroy s]
      = st.issued ++ [.httpCon s, .httpSend s request.method.code flow.path.length flow.path,
          .httpDestroy s] := by
    rw [hissued]
    show st.issued ++ _ ++ _ ++ _ = _
    rw [List.append_assoc, List.append_assoc]
    rfl
  rcases hends with rfl | rfl
  · have hreturned : (sendBody modem request s).run st
        = (.returned flow'.getResponse, st') := by
      rw [hbody, run_bind_returned hwait, flowIn]
      show ((getState >>= fun st => ofOption (st.slots s)) >>= fun f =>
        pure f.getResponse : Comp Exn Session (List UInt8)).run st' = _
      have hread : (getState >>= fun st : Session => ofOption (st.slots s) :
          Comp Exn Session Flow).run st' = (.returned flow', st') := by
        rw [run_bind_returned (run_getState st'), hflow', run_ofOption_some]
      rw [run_bind_returned hread, run_pure]
    rw [run_inScope_returned hreturned (run_dropFlow hexec st')]
    exact hissued'
  · have hthrew : (sendBody modem request s).run st = (.threw (rtError modem.wait), st') := by
      rw [hbody, run_bind_threw hwait]
    rw [run_inScope_threw hthrew (run_dropFlow hexec st')]
    exact hissued'

/-- A request with headers is rejected by an exception. -/
theorem run_scope_headers (hexec : ∀ cmd, modem.exec cmd = .ok) (hheaders : request.headers ≠ []) :
    ((inScope (dropFlow modem s) (sendBody modem request s)).run st).1
      = .threw (.std "not implemented") := by
  have hthrew : (sendBody modem request s).run st
      = (.threw (.std "not implemented"), issue (.httpCon s) st) := by
    rw [sendBody, connect, run_bind_returned (run_execWith_ok (hexec _) st),
      run_bind_threw (run_sendRequest_headers hheaders)]
  rw [run_inScope_threw hthrew (run_dropFlow hexec _)]

/-- **What an accepted request is like**, and the commands that it becomes. -/
theorem run_send_accepted {r : Request} (h : Accepted modem slots r) :
    ∃ s, slots.getNext = .returned s ∧ UrlResolver.parse r.url = .returned r.resolver ∧
      r.headers = [] ∧
      issued modem slots r = [.httpCreate s r.host, .httpCon s,
        .httpSend s r.method.code r.path.length r.path, .httpDestroy s] := by
  obtain ⟨hexec, response, hreturned⟩ := h
  have hexec' : ∀ cmd, modem.inTime.exec cmd = .ok := hexec
  rcases slots.getNext_cases with ⟨s, hnext⟩ | ⟨e, hnext⟩
  · rcases UrlResolver.parse_cases r.url with ⟨u, hurl⟩ | ⟨e, hurl⟩
    · have hresolver : r.resolver = u := by rw [Request.resolver, hurl]
      have hheaders : r.headers = [] := by
        by_contra hne
        rw [run_send_withFlow hnext hurl (hexec' _), run_scope_headers hexec' hne] at hreturned
        cases hreturned
      refine ⟨s, hnext, by rw [hresolver, hurl], hheaders, ?_⟩
      have hlive : (withFlow slots s u).slots s = some ⟨s, u.host, u.path, []⟩ := setSlot_self ..
      rw [issued, run_send_withFlow hnext hurl (hexec _), issued_scope hexec hlive hheaders,
        Request.host, Request.path, hresolver]
      rfl
    · rw [run_send_scheme _ hnext hurl] at hreturned
      cases hreturned
  · rw [run_send_exhausted _ hnext] at hreturned
    cases hreturned

end Run

/-! ### Which texts are the same -/

/-- Texts that are cut at the same character. -/
theorem eq_of_append_cons {c : Char} {f f' rest rest' : Text} (hf : c ∉ f) (hf' : c ∉ f')
    (heq : f ++ c :: rest = f' ++ c :: rest') : f = f' ∧ rest = rest' := by
  have hsplit : split c (0 + 1 : Nat) (f ++ c :: rest) = split c (0 + 1 : Nat) (f' ++ c :: rest') :=
    congrArg _ heq
  rw [split_append hf, split_append hf'] at hsplit
  obtain ⟨hfield, hrest⟩ := List.cons.inj hsplit
  have hzero : ∀ t : Text, split c (0 : Nat) t = [t] := split_zero
  rw [hzero, hzero] at hrest
  exact ⟨hfield, List.head_eq_of_cons_eq hrest⟩

/-- The head of a text is in the send buffer. -/
theorem take_head {head : Text} (hhead : head.length ≤ atCmdMaxLen - 1) (t : Text) :
    (head ++ t).take (atCmdMaxLen - 1) = head ++ t.take (atCmdMaxLen - 1 - head.length) := by
  rw [List.take_append, List.take_of_length_le hhead]

/-- **A command with a text in it**: what can be told apart. -/
theorem atVprintf_quoted_iff (beyond : Nat → Char) {head : Text}
    (hhead : head.length ≤ atCmdMaxLen - 1) (t t' : Text) :
    atVprintf beyond (head ++ (cString t ++ "\"".toList))
        = atVprintf beyond (head ++ (cString t' ++ "\"".toList)) ↔
      shown head t = shown head t' := by
  rw [atVprintf_eq_iff, take_head hhead, take_head hhead, List.append_cancel_left_eq, shown, shown,
    Prod.mk.injEq]
  simp only [List.length_append, Nat.add_left_cancel_iff, Nat.add_right_cancel_iff]
  refine and_congr_right fun hlength => ?_
  rw [List.take_append, List.take_append, hlength]
  constructor
  · exact List.append_cancel_right
  · intro heq
    rw [heq]

/-- A size that an `int` can hold. -/
theorem toInt_size {n : Nat} (hn : n < 2 ^ 31) : (BitVec.ofNat 32 n).toInt = n := by
  rw [BitVec.toInt_ofNat']
  exact Int.bmod_eq_of_le (by omega) (by omega)

/-- The numbers before the path can be read off a text. -/
theorem sendHead_inj {m m' n n' : Nat} {rest rest' : Text} (hn : n < 2 ^ 31) (hn' : n' < 2 ^ 31)
    (heq : sendHead slot0 m n ++ rest = sendHead slot0 m' n' ++ rest') : m = m' ∧ n = n' := by
  have hcomma : ∀ k : Nat, ',' ∉ formatD k := by
    intro k hmem
    have hdigit := isDigit_of_mem_formatD hmem
    revert hdigit
    decide
  have hone : ",".toList = [','] := rfl
  have hquote : ",\"".toList = [',', '"'] := rfl
  unfold sendHead at heq
  simp only [toInt_size hn, toInt_size hn', hone, hquote, List.append_assoc,
    List.append_cancel_left_eq, List.cons_append, List.nil_append, List.cons.injEq,
    true_and] at heq
  -- a comma ends each number, and there is none in a number
  obtain ⟨hm, heq⟩ := eq_of_append_cons (hcomma m) (hcomma m') heq
  obtain ⟨hsize, -⟩ := eq_of_append_cons (hcomma n) (hcomma n') heq
  exact ⟨formatD_injective hm, formatD_injective hsize⟩

/-- The heads fit into the send buffer. -/
theorem length_createHead : (createHead slot0).length ≤ atCmdMaxLen - 1 := by decide

theorem length_sendHead (method : HttpMethod) {n : Nat} (hn : n < 2 ^ 31) :
    (sendHead slot0 method.code n).length ≤ atCmdMaxLen - 1 := by
  have hdigits : (formatD (BitVec.ofNat 32 n).toInt).length ≤ 10 := by
    rw [toInt_size hn, formatD_natCast, Nat.length_toDigits_le_iff (by decide) (by decide)]
    omega
  have hcode : (formatD method.code).length = 1 := by cases method <;> decide
  have hslot : (formatD (slot0.val : Nat)).length = 1 := by decide
  unfold sendHead
  simp only [List.length_append, hcode, hslot]
  have hlit : "AT+HTTPSEND=".toList.length = 12 ∧ ",".toList.length = 1
      ∧ ",\"".toList.length = 2 := by decide
  unfold atCmdMaxLen
  omega

/-- A path is not much longer than its URL. -/
theorem Request.length_path (r : Request) (h : UrlResolver.parse r.url = .returned r.resolver) :
    r.path.length < 2 ^ 31 := by
  have hurl := r.url_lt
  unfold UrlResolver.parse at h
  split_ifs at h with hscheme
  · split at h
    · injection h with h
      rw [Request.path, ← h, List.length_drop]
      omega
    · injection h with h
      have hroot : r.path = ['/'] := by rw [Request.path, ← h]
      rw [hroot]
      decide

theorem HttpMethod.code_injective {m m' : HttpMethod} (h : m.code = m'.code) : m = m' := by
  cases m <;> cases m' <;> first | rfl | cases h

variable {modem : Modem} {slots : LimitedSlots Flow kSlots} {r r' : Request}

/-- The only slot. -/
theorem eq_slot0 (s : Fin kSlots) : s = slot0 := by
  have hlt := s.isLt
  apply Fin.ext
  unfold kSlots at hlt
  show s.val = 0
  omega

/-- The texts of the four commands. -/
theorem wire_of_issued {s : Fin kSlots} (beyond : Nat → Char)
    (h : issued modem slots r = [.httpCreate s r.host, .httpCon s,
      .httpSend s r.method.code r.path.length r.path, .httpDestroy s]) :
    wire beyond modem slots r
      = [atVprintf beyond (createHead s ++ (cString r.host ++ "\"".toList)),
        atVprintf beyond (AtCommand.httpCon s).text,
        atVprintf beyond (sendHead s r.method.code r.path.length
          ++ (cString r.path ++ "\"".toList)),
        atVprintf beyond (AtCommand.httpDestroy s).text] := by
  rw [wire, h]
  rfl

/-- **Which requests become the same texts**: those that differ in nothing that is sent. -/
theorem wire_eq_iff (beyond : Nat → Char) (h : Accepted modem slots r)
    (h' : Accepted modem slots r') :
    wire beyond modem slots r = wire beyond modem slots r' ↔ ¬ Distinguished r r' := by
  obtain ⟨s, -, hurl, -, hissued⟩ := run_send_accepted h
  obtain ⟨s', -, hurl', -, hissued'⟩ := run_send_accepted h'
  rw [eq_slot0 s] at hissued
  rw [eq_slot0 s'] at hissued'
  have hlength := r.length_path hurl
  have hlength' := r'.length_path hurl'
  have hhead := length_sendHead r.method hlength
  rw [wire_of_issued beyond hissued, wire_of_issued beyond hissued']
  simp only [List.cons.injEq, and_true, true_and, atVprintf_quoted_iff beyond length_createHead]
  unfold Distinguished
  simp only [not_or, ne_eq, not_not]
  constructor
  · rintro ⟨hhost, hsend⟩
    -- the buffer holds all of the numbers before the path
    have htake := ((atVprintf_eq_iff beyond _ _).mp hsend).2
    rw [take_head hhead, take_head (length_sendHead r'.method hlength')] at htake
    obtain ⟨hcode, hsize⟩ := sendHead_inj hlength hlength' htake
    have hmethod := HttpMethod.code_injective hcode
    rw [← hmethod, ← hsize] at hsend ⊢
    exact ⟨rfl, rfl, hhost, (atVprintf_quoted_iff beyond hhead _ _).mp hsend⟩
  · rintro ⟨hmethod, hsize, hhost, hpath⟩
    rw [← hmethod, ← hsize] at hpath ⊢
    exact ⟨hhost, (atVprintf_quoted_iff beyond hhead _ _).mpr hpath⟩

/-- **When no part of a request is dropped.**  Two accepted requests that differ are sent with
    different texts if and only if they differ in the method, in the length of the path, or in
    what can be seen of the host or the path. -/
theorem differ_wire_iff (beyond : Nat → Char) (modem : Modem) (slots : LimitedSlots Flow kSlots)
    (r r' : Request) (h : Accepted modem slots r) (h' : Accepted modem slots r') :
    (Differ r r' → wire beyond modem slots r ≠ wire beyond modem slots r') ↔
      (Differ r r' → Distinguished r r') := by
  have hiff := wire_eq_iff beyond h h'
  refine imp_congr_right fun _ => ?_
  rw [Ne, hiff, not_not]

/-- A modem that takes every command, and answers. -/
def answeringModem : Modem := ⟨fun _ => .ok, .ok, []⟩

/-- Two paths. -/
theorem differ_wire_iff_paths :
    (Differ ⟨⟨"http://h/a".toList, .get, []⟩, [], by decide⟩
          ⟨⟨"http://h/b".toList, .get, []⟩, [], by decide⟩ →
        wire (fun _ => nul) answeringModem (fun _ => none)
            ⟨⟨"http://h/a".toList, .get, []⟩, [], by decide⟩
          ≠ wire (fun _ => nul) answeringModem (fun _ => none)
            ⟨⟨"http://h/b".toList, .get, []⟩, [], by decide⟩) ↔
      (Differ ⟨⟨"http://h/a".toList, .get, []⟩, [], by decide⟩
          ⟨⟨"http://h/b".toList, .get, []⟩, [], by decide⟩ →
        Distinguished ⟨⟨"http://h/a".toList, .get, []⟩, [], by decide⟩
          ⟨⟨"http://h/b".toList, .get, []⟩, [], by decide⟩) :=
  differ_wire_iff (fun _ => nul) answeringModem (fun _ => none)
    ⟨⟨"http://h/a".toList, .get, []⟩, [], by decide⟩
    ⟨⟨"http://h/b".toList, .get, []⟩, [], by decide⟩
    ⟨fun _ => rfl, [], by decide +kernel⟩ ⟨fun _ => rfl, [], by decide +kernel⟩

/-- The body of a request is dropped. -/
theorem dropped_body :
    Differ ⟨⟨"http://h/".toList, .post, []⟩, ['1'], by decide⟩
        ⟨⟨"http://h/".toList, .post, []⟩, ['2'], by decide⟩ ∧
      Accepted answeringModem (fun _ => none) ⟨⟨"http://h/".toList, .post, []⟩, ['1'], by decide⟩ ∧
      Accepted answeringModem (fun _ => none) ⟨⟨"http://h/".toList, .post, []⟩, ['2'], by decide⟩ ∧
      wire (fun _ => nul) answeringModem (fun _ => none)
          ⟨⟨"http://h/".toList, .post, []⟩, ['1'], by decide⟩
        = wire (fun _ => nul) answeringModem (fun _ => none)
          ⟨⟨"http://h/".toList, .post, []⟩, ['2'], by decide⟩ :=
  ⟨by decide, ⟨fun _ => rfl, [], by decide +kernel⟩, ⟨fun _ => rfl, [], by decide +kernel⟩, rfl⟩

end Http

end RtCharger.Devices
