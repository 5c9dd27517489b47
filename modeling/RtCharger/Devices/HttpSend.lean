import RtCharger.Net.At
import RtCharger.Devices.Http

namespace RtCharger.Devices

open Effect RtCharger.Kernel RtCharger.Net RtCharger.Utilities

/-!
# A request and its cleanup

`Http::send` of one thread, as the commands it gives to the modem and the state of the slots: a
flow is made and stored, the request is sent, the response is waited for, and the last reference
to the flow is dropped when `send` is left, which expires the slot and runs `~Flow`.

* `UrlResolver.parse`, `createFlow`, `connect`, `sendRequest`, `waitContent`, `dropFlow`,
  `send` — the functions of the source;
* `triple_body` — what the part in the scope of the flow does, whatever fails;
* `send_fails_cleanly_iff` — `send` fails cleanly if and only if the destruction of the session
  succeeds.
-/

namespace Http

/-! ### Requests -/

/-- `HttpMethod`. -/
inductive HttpMethod where
  | get
  | post
deriving DecidableEq, Repr

/-- What `HttpMethod` is sent as. -/
def HttpMethod.code : HttpMethod → Nat
  | .get  => 0
  | .post => 1

/-- `HttpRequest`. -/
structure HttpRequest where
  url : Text
  method : HttpMethod
  headers : List (Text × Text)
deriving DecidableEq, Repr

/-- `UrlResolver`. -/
structure UrlResolver where
  host : Text
  path : Text
deriving DecidableEq, Repr

/-- `scheme`. -/
def scheme : Text := "http://".toList

/-- `url.find('/', scheme.size())`. -/
def slashPos (url : Text) : Option Nat :=
  ((url.drop scheme.length).findIdx? fun c => c == '/').map fun i => scheme.length + i

/-- `UrlResolver::parse`; the scheme stays in the host. -/
def UrlResolver.parse (url : Text) : Outcome Exn UrlResolver :=
  if scheme.isPrefixOf url then
    match slashPos url with
    | some pos => .returned ⟨url.take pos, url.drop pos⟩
    | none     => .returned ⟨url, ['/']⟩
  else .threw (atCompError "scheme not supported")

/-- A URL is parsed, or its scheme is not supported. -/
theorem UrlResolver.parse_cases (url : Text) :
    (∃ u, UrlResolver.parse url = .returned u) ∨ ∃ e, UrlResolver.parse url = .threw e := by
  unfold UrlResolver.parse
  by_cases hscheme : scheme.isPrefixOf url = true
  · rw [if_pos hscheme]
    cases slashPos url with
    | some pos => exact Or.inl ⟨_, rfl⟩
    | none     => exact Or.inl ⟨_, rfl⟩
  · rw [if_neg hscheme]
    exact Or.inr ⟨_, rfl⟩

/-- The commands of a session. -/
inductive AtCommand where
  | httpCreate (slot : Fin kSlots) (host : Text)
  | httpCon (slot : Fin kSlots)
  | httpSend (slot : Fin kSlots) (method pathSize : Nat) (path : Text)
  | httpDestroy (slot : Fin kSlots)
deriving DecidableEq, Repr

/-- What the modem makes of a request: the result of each command and of the wait for the
    response, and the content that the handler appends to the flow before the wait ends. -/
structure Modem where
  exec : AtCommand → RtErr
  wait : RtErr
  content : List UInt8

/-- The slots of the component, and the commands issued. -/
structure Session where
  slots : LimitedSlots Flow kSlots
  issued : List AtCommand

/-- A command is issued. -/
def issue (cmd : AtCommand) (st : Session) : Session := { st with issued := st.issued ++ [cmd] }

/-- The slot holds the flow, or is expired. -/
def setSlot (s : Fin kSlots) (flow : Option Flow) (st : Session) : Session :=
  { st with slots := Function.update st.slots s flow }

@[simp] theorem setSlot_self (s : Fin kSlots) (flow : Option Flow) (st : Session) :
    (setSlot s flow st).slots s = flow := Function.update_self ..

theorem setSlot_of_ne {s s' : Fin kSlots} (hne : s' ≠ s) (flow : Option Flow) (st : Session) :
    (setSlot s flow st).slots s' = st.slots s' := Function.update_of_ne hne ..

/-! ### `Http::send` -/

section Send

variable (modem : Modem)

/-- The flow in a slot, which a reference keeps alive. -/
def flowIn (s : Fin kSlots) : Comp Exn Session Flow := do
  let st ← getState
  ofOption (st.slots s)

/-- The constructor of `Flow`. -/
def Flow.make (s : Fin kSlots) (url : Text) : Comp Exn Session Flow := do
  let urlResolver ← ofOutcome (UrlResolver.parse url)
  execWith modem.exec issue (.httpCreate s urlResolver.host)
  pure ⟨s, urlResolver.host, urlResolver.path, []⟩

/-- `Http::createFlow`; the flow is named by its slot. -/
def createFlow (url : Text) : Comp Exn Session (Fin kSlots) := do
  let st ← getState
  let s ← ofOutcome st.slots.getNext
  let flow ← Flow.make modem s url
  modifyState (setSlot s (some flow))
  pure s

/-- `Flow::connect`. -/
def connect (s : Fin kSlots) : Comp Exn Session Unit :=
  execWith modem.exec issue (.httpCon s)

/-- `Flow::send`. -/
def sendRequest (s : Fin kSlots) (request : HttpRequest) : Comp Exn Session Unit := do
  if request.headers.length = 0 then
    let flow ← flowIn s
    execWith modem.exec issue (.httpSend s request.method.code flow.path.length flow.path)
  else Effect.raise (.std "not implemented")

/-- `Flow::waitResponse`, during which the handler appends the content. -/
def waitContent (s : Fin kSlots) : Comp Exn Session Unit := do
  modifyState fun st =>
    setSlot s ((st.slots s).map fun f => { f with response := f.response ++ modem.content }) st
  if modem.wait ≠ .ok then Effect.raise (rtError modem.wait)
  pure ()

/-- The last reference to the flow is dropped: its slot is expired before `~Flow` runs. -/
def dropFlow (s : Fin kSlots) : Comp Exn Session Unit := do
  modifyState (setSlot s none)
  execWith modem.exec issue (.httpDestroy s)

/-- What `send` does while it holds the flow. -/
def sendBody (request : HttpRequest) (s : Fin kSlots) : Comp Exn Session (List UInt8) := do
  connect modem s
  sendRequest modem s request
  waitContent modem s
  let flow ← flowIn s
  pure flow.getResponse

/-- `Http::send`. -/
def send (request : HttpRequest) : Comp Exn Session (List UInt8) := do
  let s ← createFlow modem request.url
  inScope (dropFlow modem s) (sendBody modem request s)

end Send

/-! ### The part in the scope of the flow -/

variable {modem : Modem} {request : HttpRequest} {before : LimitedSlots Flow kSlots}
  {s : Fin kSlots} {host : Text}

/-- The flow of the slot `s` is there, its response is `response`, and of the commands that make
    or destroy a session exactly its own creation was issued. -/
structure Holds (before : LimitedSlots Flow kSlots) (s : Fin kSlots) (host : Text)
    (response : List UInt8) (st : Session) : Prop where
  live : ∃ flow, st.slots s = some flow ∧ flow.response = response
  others : ∀ s', s' ≠ s → st.slots s' = before s'
  created : ∀ s' host', AtCommand.httpCreate s' host' ∈ st.issued ↔ s' = s ∧ host' = host
  destroyed : ∀ s', st.issued.count (.httpDestroy s') = 0

/-- The same for any response. -/
def HoldsSome (before : LimitedSlots Flow kSlots) (s : Fin kSlots) (host : Text)
    (st : Session) : Prop :=
  ∃ response, Holds before s host response st

/-- Commands of other kinds change nothing of it. -/
theorem Holds.issue {response : List UInt8} {st : Session} {cmd : AtCommand}
    (h : Holds before s host response st) (hcreate : ∀ s' host', cmd ≠ .httpCreate s' host')
    (hdestroy : ∀ s', cmd ≠ .httpDestroy s') : Holds before s host response (issue cmd st) where
  live := h.live
  others := h.others
  created := by
    intro s' host'
    have hne : AtCommand.httpCreate s' host' ≠ cmd := (hcreate s' host').symm
    simp only [Http.issue, List.mem_append, List.mem_singleton, hne, or_false]
    exact h.created s' host'
  destroyed := by
    intro s'
    have hzero : [cmd].count (AtCommand.httpDestroy s') = 0 :=
      List.count_eq_zero.mpr fun hmem => hdestroy s' (List.mem_singleton.mp hmem).symm
    rw [Http.issue, List.count_append, h.destroyed s', hzero]

/-- A command of another kind, in the scope of the flow. -/
theorem triple_command {response : List UInt8} {cmd : AtCommand}
    (hcreate : ∀ s' host', cmd ≠ .httpCreate s' host')
    (hdestroy : ∀ s', cmd ≠ .httpDestroy s') :
    Triple (Holds before s host response) (execWith modem.exec issue cmd)
      (fun _ => Holds before s host response) (fun _ => HoldsSome before s host) :=
  triple_execWith (fun _ _ h => h.issue hcreate hdestroy)
    (fun _ _ h => ⟨response, h.issue hcreate hdestroy⟩)

/-- Reading the flow. -/
theorem triple_flowIn {response : List UInt8} :
    Triple (Holds before s host response) (flowIn s)
      (fun flow st => Holds before s host response st ∧ flow.response = response)
      (fun _ => HoldsSome before s host) := by
  intro st h
  obtain ⟨flow, hlive, hresponse⟩ := h.live
  refine Or.inl ⟨flow, st, ?_, h, hresponse⟩
  rw [flowIn, run_bind_returned (run_getState st), hlive, run_ofOption_some]

/-- Sending the request. -/
theorem triple_sendRequest {response : List UInt8} :
    Triple (Holds before s host response) (sendRequest modem s request)
      (fun _ => Holds before s host response) (fun _ => HoldsSome before s host) := by
  unfold sendRequest
  by_cases hheaders : request.headers.length = 0
  · rw [if_pos hheaders]
    refine triple_flowIn.bind fun flow => ?_
    refine (triple_command ?_ ?_).pre fun st h => h.1
    · intro s' host' h
      cases h
    · intro s' h
      cases h
  · rw [if_neg hheaders]
    exact triple_raise fun st h => ⟨response, h⟩

/-- Waiting for the response. -/
theorem triple_waitContent : Triple (Holds before s host []) (waitContent modem s)
    (fun _ => Holds before s host modem.content) (fun _ => HoldsSome before s host) := by
  unfold waitContent
  have hreceived : Triple (Holds before s host []) (modifyState fun st =>
        setSlot s ((st.slots s).map fun f => { f with response := f.response ++ modem.content }) st)
      (fun _ => Holds before s host modem.content)
      (fun (_ : Exn) => HoldsSome before s host) := by
    apply triple_modifyState
    intro st h
    obtain ⟨flow, hlive, hresponse⟩ := h.live
    refine ⟨⟨{ flow with response := flow.response ++ modem.content }, ?_, ?_⟩, ?_, h.created,
      h.destroyed⟩
    · rw [setSlot_self, hlive]
      rfl
    · rw [hresponse]
      rfl
    · intro s' hne
      rw [setSlot_of_ne hne]
      exact h.others s' hne
  refine hreceived.bind fun _ => ?_
  by_cases hwait : modem.wait = .ok
  · simp only [hwait, ne_eq, not_true_eq_false, if_false]
    exact triple_pure fun st h => h
  · simp only [hwait, ne_eq, not_false_eq_true, if_true]
    exact (triple_raise fun st h => ⟨modem.content, h⟩ : Triple _ _ (fun _ => _) _).bind
      fun _ => triple_pure fun st h => h

/-- **What happens in the scope of the flow.**  Whatever fails, control comes back with the flow
    in its slot; what is returned is the content. -/
theorem triple_body : Triple (Holds before s host []) (sendBody modem request s)
    (fun response st => response = modem.content ∧ HoldsSome before s host st)
    (fun _ => HoldsSome before s host) := by
  unfold sendBody
  refine Triple.bind (Q := fun _ => Holds before s host []) (triple_command ?_ ?_) fun _ => ?_
  · intro s' host' h
    cases h
  · intro s' h
    cases h
  refine triple_sendRequest.bind fun _ => ?_
  refine triple_waitContent.bind fun _ => ?_
  refine triple_flowIn.bind fun flow => ?_
  exact triple_pure fun st h => ⟨h.2, modem.content, h.1⟩

/-! ### The making of the flow and its end -/

/-- With the slots exhausted nothing is done. -/
theorem run_send_exhausted {e : Exn} (st : Session) (h : st.slots.getNext = .threw e) :
    (send modem request).run st = (.threw e, st) := by
  have hcreate : (createFlow modem request.url).run st = (.threw e, st) := by
    rw [createFlow, run_bind_returned (run_getState st), h]
    exact run_bind_threw (run_ofOutcome _ st) _
  exact run_bind_threw hcreate _

/-- With a URL of another scheme nothing is done either. -/
theorem run_send_scheme {e : Exn} (st : Session) (hnext : st.slots.getNext = .returned s)
    (h : UrlResolver.parse request.url = .threw e) :
    (send modem request).run st = (.threw e, st) := by
  have hmake : (Flow.make modem s request.url).run st = (.threw e, st) := by
    rw [Flow.make, h]
    exact run_bind_threw (run_ofOutcome _ st) _
  have hcreate : (createFlow modem request.url).run st = (.threw e, st) := by
    rw [createFlow, run_bind_returned (run_getState st), hnext,
      run_bind_returned (run_ofOutcome _ st)]
    exact run_bind_threw hmake _
  exact run_bind_threw hcreate _

/-- When the session is not created, there is no flow. -/
theorem run_send_uncreated {url : UrlResolver} (st : Session)
    (hnext : st.slots.getNext = .returned s) (hurl : UrlResolver.parse request.url = .returned url)
    (h : modem.exec (.httpCreate s url.host) ≠ .ok) : (send modem request).run st
      = (.threw (atExecError (modem.exec (.httpCreate s url.host))),
          issue (.httpCreate s url.host) st) := by
  have hmake : (Flow.make modem s request.url).run st
      = (.threw (atExecError (modem.exec (.httpCreate s url.host))),
          issue (.httpCreate s url.host) st) := by
    rw [Flow.make, hurl, run_bind_returned (run_ofOutcome _ st)]
    exact run_bind_threw (run_execWith_failed h st) _
  have hcreate : (createFlow modem request.url).run st
      = (.threw (atExecError (modem.exec (.httpCreate s url.host))),
          issue (.httpCreate s url.host) st) := by
    rw [createFlow, run_bind_returned (run_getState st), hnext,
      run_bind_returned (run_ofOutcome _ st)]
    exact run_bind_threw hmake _
  exact run_bind_threw hcreate _

/-- The component when the session is created and the flow is in its slot. -/
def withFlow (slots : LimitedSlots Flow kSlots) (s : Fin kSlots) (url : UrlResolver) : Session :=
  setSlot s (some ⟨s, url.host, url.path, []⟩) (issue (.httpCreate s url.host) ⟨slots, []⟩)

/-- When the session is created, the rest runs in the scope of the flow. -/
theorem run_send_withFlow {url : UrlResolver} {slots : LimitedSlots Flow kSlots}
    (hnext : slots.getNext = .returned s) (hurl : UrlResolver.parse request.url = .returned url)
    (h : modem.exec (.httpCreate s url.host) = .ok) :
    (send modem request).run ⟨slots, []⟩
      = (inScope (dropFlow modem s) (sendBody modem request s)).run (withFlow slots s url) := by
  have hmake : (Flow.make modem s request.url).run ⟨slots, []⟩
      = (.returned ⟨s, url.host, url.path, []⟩, issue (.httpCreate s url.host) ⟨slots, []⟩) := by
    rw [Flow.make, hurl, run_bind_returned (run_ofOutcome _ _),
      run_bind_returned (run_execWith_ok h _), run_pure]
  have hcreate : (createFlow modem request.url).run ⟨slots, []⟩
      = (.returned s, withFlow slots s url) := by
    rw [createFlow, run_bind_returned (run_getState _)]
    show (ofOutcome slots.getNext >>= _).run _ = _
    rw [hnext, run_bind_returned (run_ofOutcome _ _), run_bind_returned hmake,
      run_bind_returned (run_modifyState _ _), run_pure]
    rfl
  exact run_bind_returned hcreate _

variable (modem) in
/-- Then only its creation was issued. -/
theorem run_send_created {url : UrlResolver} {slots : LimitedSlots Flow kSlots}
    (hnext : slots.getNext = .returned s) (hurl : UrlResolver.parse request.url = .returned url)
    (h : modem.exec (.httpCreate s url.host) = .ok) :
    ∃ st, (send modem request).run ⟨slots, []⟩
        = (inScope (dropFlow modem s) (sendBody modem request s)).run st ∧
      Holds slots s url.host [] st := by
  have hissued : (withFlow slots s url).issued = [.httpCreate s url.host] := rfl
  refine ⟨withFlow slots s url, run_send_withFlow hnext hurl h, ⟨_, setSlot_self .., rfl⟩, ?_, ?_, ?_⟩
  · intro s' hne
    exact setSlot_of_ne hne _ _
  · intro s' host'
    rw [hissued, List.mem_singleton, AtCommand.httpCreate.injEq]
  · intro s'
    rw [hissued]
    rfl

/-- The flow of the slot `s` is gone, and exactly its own session was made and destroyed. -/
structure Left (before : LimitedSlots Flow kSlots) (s : Fin kSlots) (host : Text)
    (st : Session) : Prop where
  free : st.slots s = none
  others : ∀ s', s' ≠ s → st.slots s' = before s'
  created : ∀ s' host', AtCommand.httpCreate s' host' ∈ st.issued ↔ s' = s ∧ host' = host
  destroyed : ∀ s', st.issued.count (.httpDestroy s') = if s' = s then 1 else 0

/-- Dropping the flow, with a destruction that succeeds. -/
theorem neverThrows_dropFlow (h : modem.exec (.httpDestroy s) = .ok) :
    NeverThrows (HoldsSome before s host) (dropFlow modem s) (Left before s host) := by
  rintro st ⟨response, hst⟩
  refine ⟨issue (.httpDestroy s) (setSlot s none st), ?_, setSlot_self .., ?_, ?_, ?_⟩
  · rw [dropFlow, run_bind_returned (run_modifyState _ st), run_execWith_ok h]
  · intro s' hne
    show (setSlot s none st).slots s' = before s'
    rw [setSlot_of_ne hne]
    exact hst.others s' hne
  · intro s' host'
    show AtCommand.httpCreate s' host' ∈ st.issued ++ [.httpDestroy s] ↔ _
    rw [List.mem_append, List.mem_singleton, hst.created s' host', or_iff_left]
    intro h
    cases h
  · intro s'
    show (st.issued ++ [AtCommand.httpDestroy s]).count (.httpDestroy s') = _
    rw [List.count_append, hst.destroyed s', List.count_singleton]
    by_cases hs : s' = s
    · simp [hs]
    · have hs' : s ≠ s' := fun h => hs h.symm
      simp [hs, hs']

/-- Dropping the flow, with a destruction that fails. -/
theorem run_dropFlow_failed (h : modem.exec (.httpDestroy s) ≠ .ok) (st : Session) :
    ∃ e st', (dropFlow modem s).run st = (.threw e, st') := by
  refine ⟨atExecError (modem.exec (.httpDestroy s)), issue (.httpDestroy s) (setSlot s none st), ?_⟩
  rw [dropFlow, run_bind_returned (run_modifyState _ st), run_execWith_failed h]

/-! ### Failing cleanly -/

/-- The session of a slot was created. -/
def Created (modem : Modem) (s : Fin kSlots) (st : Session) : Prop :=
  ∃ host, AtCommand.httpCreate s host ∈ st.issued ∧ modem.exec (.httpCreate s host) = .ok

/-- `send` fails cleanly: it returns the content or throws; a session is destroyed exactly once
    if it was created, and not at all otherwise; and a slot that was free is free again. -/
structure FailsCleanly (modem : Modem) (request : HttpRequest)
    (slots : LimitedSlots Flow kSlots) : Prop where
  ends : ((send modem request).run ⟨slots, []⟩).1 = .returned modem.content ∨
    ∃ e, ((send modem request).run ⟨slots, []⟩).1 = .threw e
  destroyed : ∀ s, Created modem s ((send modem request).run ⟨slots, []⟩).2 →
    ((send modem request).run ⟨slots, []⟩).2.issued.count (.httpDestroy s) = 1
  undestroyed : ∀ s, ¬Created modem s ((send modem request).run ⟨slots, []⟩).2 →
    ((send modem request).run ⟨slots, []⟩).2.issued.count (.httpDestroy s) = 0
  free : ∀ s, slots s = none → ((send modem request).run ⟨slots, []⟩).2.slots s = none

/-- A run that throws before there is a flow. -/
theorem failsCleanly_of_threw {slots : LimitedSlots Flow kSlots} {e : Exn} {st : Session}
    (hrun : (send modem request).run ⟨slots, []⟩ = (.threw e, st)) (hslots : st.slots = slots)
    (hcreated : ∀ s, ¬Created modem s st) (hdestroyed : ∀ s, .httpDestroy s ∉ st.issued) :
    FailsCleanly modem request slots where
  ends := by
    rw [hrun]
    exact Or.inr ⟨e, rfl⟩
  destroyed := by
    rw [hrun]
    exact fun s h => absurd h (hcreated s)
  undestroyed := by
    rw [hrun]
    exact fun s _ => List.count_eq_zero.mpr (hdestroyed s)
  free := by
    rw [hrun]
    intro s hs
    show st.slots s = none
    rw [hslots]
    exact hs

/-- A run through the life of a flow. -/
theorem failsCleanly_of_destroyed {url : UrlResolver} {slots : LimitedSlots Flow kSlots}
    (hnext : slots.getNext = .returned s) (hurl : UrlResolver.parse request.url = .returned url)
    (hcreate : modem.exec (.httpCreate s url.host) = .ok)
    (hdestroy : modem.exec (.httpDestroy s) = .ok) : FailsCleanly modem request slots := by
  obtain ⟨st, hrun, hst⟩ := run_send_created modem hnext hurl hcreate
  have hscope : Triple (Holds slots s url.host [])
      (inScope (dropFlow modem s) (sendBody modem request s))
      (fun response st => response = modem.content ∧ Left slots s url.host st)
      (fun _ => Left slots s url.host) := by
    refine triple_body.inScope ?_ fun _ => neverThrows_dropFlow hdestroy
    rintro response st ⟨rfl, hheld⟩
    obtain ⟨st', hdrop, hleft⟩ := neverThrows_dropFlow hdestroy st hheld
    exact ⟨st', hdrop, rfl, hleft⟩
  have hends : (((send modem request).run ⟨slots, []⟩).1 = .returned modem.content ∨
      ∃ e, ((send modem request).run ⟨slots, []⟩).1 = .threw e) ∧
      Left slots s url.host ((send modem request).run ⟨slots, []⟩).2 := by
    rw [hrun]
    rcases hscope st hst with ⟨response, st', hscoped, rfl, hleft⟩ | ⟨e, st', hscoped, hleft⟩
    · rw [hscoped]
      exact ⟨Or.inl rfl, hleft⟩
    · rw [hscoped]
      exact ⟨Or.inr ⟨e, rfl⟩, hleft⟩
  obtain ⟨hends, hleft⟩ := hends
  refine ⟨hends, ?_, ?_, ?_⟩
  · rintro s' ⟨host', hmem, _⟩
    obtain ⟨rfl, _⟩ := (hleft.created s' host').mp hmem
    rw [hleft.destroyed, if_pos rfl]
  · intro s' hnot
    have hne : s' ≠ s := by
      rintro rfl
      exact hnot ⟨url.host, (hleft.created s' url.host).mpr ⟨rfl, rfl⟩, hcreate⟩
    rw [hleft.destroyed, if_neg hne]
  · intro s' hs'
    by_cases hs : s' = s
    · rw [hs]
      exact hleft.free
    · rw [hleft.others s' hs]
      exact hs'

/-- **When `send` fails cleanly.**  It does unless it makes a session whose destruction fails:
    whenever a slot is free, the scheme is supported and the session is created, `AT+HTTPDESTROY`
    has to succeed. -/
theorem send_fails_cleanly_iff (modem : Modem) (request : HttpRequest)
    (slots : LimitedSlots Flow kSlots) :
    FailsCleanly modem request slots ↔
      ∀ s url, slots.getNext = .returned s → UrlResolver.parse request.url = .returned url →
        modem.exec (.httpCreate s url.host) = .ok → modem.exec (.httpDestroy s) = .ok := by
  constructor
  · intro hclean s url hnext hurl hcreate
    by_contra hdestroy
    obtain ⟨st, hrun, hst⟩ := run_send_created modem hnext hurl hcreate
    have hterminated : ((send modem request).run ⟨slots, []⟩).1 = .terminated := by
      rw [hrun]
      exact triple_body.inScope_terminated (run_dropFlow_failed hdestroy) hst
    rcases hclean.ends with h | ⟨e, h⟩
    · rw [hterminated] at h
      cases h
    · rw [hterminated] at h
      cases h
  · intro hdestroy
    rcases slots.getNext_cases with ⟨s, hnext⟩ | ⟨e, hnext⟩
    · rcases UrlResolver.parse_cases request.url with ⟨url, hurl⟩ | ⟨e, hurl⟩
      · by_cases hcreate : modem.exec (.httpCreate s url.host) = .ok
        · exact failsCleanly_of_destroyed hnext hurl hcreate (hdestroy s url hnext hurl hcreate)
        · refine failsCleanly_of_threw (run_send_uncreated ⟨slots, []⟩ hnext hurl hcreate)
            rfl ?_ ?_
          · rintro s' ⟨host', hmem, hok⟩
            rw [List.mem_singleton.mp hmem] at hok
            exact hcreate hok
          · intro s' hmem
            cases List.mem_singleton.mp hmem
      · refine failsCleanly_of_threw (run_send_scheme ⟨slots, []⟩ hnext hurl) rfl ?_ ?_
        · rintro s' ⟨host', hmem, _⟩
          cases hmem
        · intro s' hmem
          cases hmem
    · refine failsCleanly_of_threw (run_send_exhausted ⟨slots, []⟩ hnext) rfl ?_ ?_
      · rintro s' ⟨host', hmem, _⟩
        cases hmem
      · intro s' hmem
        cases hmem

/-- A modem that does not answer `AT+HTTPCON` and then not `AT+HTTPDESTROY` either. -/
def silentModem : Modem where
  exec
    | .httpCreate _ _ | .httpSend _ _ _ _ => .ok
    | .httpCon _ | .httpDestroy _         => .timeout
  wait := .ok
  content := []

/-- Then the time-out of `connect` is not what the caller gets: the program ends. -/
theorem silent_modem_terminates :
    ¬FailsCleanly silentModem ⟨"http://h/p".toList, .get, []⟩ fun _ => none := by
  intro hclean
  have hterminated : ((send silentModem ⟨"http://h/p".toList, .get, []⟩).run
      ⟨fun _ => none, []⟩).1 = .terminated := rfl
  rcases hclean.ends with h | ⟨e, h⟩
  · rw [hterminated] at h
    cases h
  · rw [hterminated] at h
    cases h

end Http

end RtCharger.Devices
