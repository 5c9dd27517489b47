import RtCharger.Lib.StepSystem
import RtCharger.Kernel.Mutex
import RtCharger.Kernel.Semaphore
import RtCharger.Net.AtResponse

namespace RtCharger.Net.AtExec

open StepSystem RtCharger.Kernel RtCharger.Utilities

/-!
# Commands and the parser thread

Any number of threads that give commands with `At::exec`, and the thread of `client_parser`, which
reads what the modem sends, calls the handlers of the result codes and fills in the response of
the command that is under way.  Every access to `struct at_client` is a step of its own; what is
done to a response, emptying it or storing a line in it, is taken as one step.

* `Pc`, `ParserPc` — the places in `at_obj_exec_cmd` and in `client_parser`;
* `step` — the next step of a thread, of the parser or of the modem;
* `Did`, `step_did` — everything a step can do, with what it presupposes.
-/

variable {Tid H : Type}

/-! ### Places -/

/-- Where a thread is in `at_obj_exec_cmd`. -/
inductive Pc where
  | idle
  | entered
  /-- It has `client->lock`. -/
  | locked
  /-- `client->resp_status` is set. -/
  | statusSet
  /-- `client->resp` is set. -/
  | registered
  /-- The response is empty again; `buf_len` and `line_counts` are taken to be set at once. -/
  | cleared
  /-- The command is written. -/
  | sent
  /-- In `rt_sem_take`. -/
  | suspended
  | woken
  | timedOut
  /-- At `__exit`. -/
  | leaving (result : RtErr)
  /-- `client->resp` is cleared. -/
  | unlocking (result : RtErr)
deriving DecidableEq, Repr

/-- Where the parser thread is in `client_parser`. -/
inductive ParserPc (Tid : Type) where
  | reading
  /-- `at_recv_readline` has returned a line. -/
  | parsing (line : Text)
  /-- The line is no result code. -/
  | testing (line : Text)
  /-- `client->resp` was not null. -/
  | loading (line : Text)
  /-- `resp` is the response of a thread. -/
  | storing (line : Text) (t : Tid)
  /-- The response is complete. -/
  | clearing
  | notifying
  /-- `resp` is null and is used. -/
  | faulted
deriving DecidableEq, Repr

/-- The thread has `client->lock`. -/
def Pc.holds : Pc → Bool
  | .idle | .entered => false
  | _                => true

/-- `at_recv_readline(client) > 0` is tested. -/
def ParserPc.ofResult : Except RtErr Text → ParserPc Tid
  | .ok line => .parsing line
  | .error _ => .reading

/-- The parser is about to use a response or to finish one. -/
def ParserPc.busy : ParserPc Tid → Bool
  | .reading | .parsing _ | .testing _ => false
  | _                                  => true

/-! ### States and actions -/

/-- A command that has returned. -/
structure Ended (Tid : Type) where
  thread : Tid
  result : RtErr
  response : AtResponse
  /-- For how many lines `client->resp` had been tested when it was set. -/
  mark : Nat
  /-- The lines stored since then. -/
  heard : List Text
  /-- Those of them that were stored after the response was emptied. -/
  stored : List Text
deriving DecidableEq, Repr

/-- The client, the responses, the threads, and what has happened. -/
structure System (Tid H : Type) where
  /-- What the device has received and nobody has read. -/
  unread : Text
  lock : RtMutex Tid
  resp : Option Tid
  respStatus : AtRespStatus
  respNotice : RtSemaphore Tid
  /-- The response that a thread has given to `at_obj_exec_cmd`. -/
  response : Tid → AtResponse
  parser : ParserPc Tid
  pc : Tid → Pc
  /-- What the modem has sent. -/
  arrived : Text
  /-- The results of `at_recv_readline`. -/
  results : List (Except RtErr Text)
  /-- The handlers called, and with which line. -/
  calls : List (H × Text)
  /-- The lines that were no result codes, for which `client->resp` was tested. -/
  others : List Text
  mark : Nat
  heard : List Text
  stored : List Text
  ended : List (Ended Tid)

/-- Nobody has given a command, and nothing has been received. -/
def System.initial (Tid H : Type) : System Tid H where
  unread := []
  lock := rtMutexInit Tid
  resp := none
  respStatus := .ok
  respNotice := rtSemCreate Tid
  response := fun _ => atCreateResp 0 0
  parser := .reading
  pc := fun _ => .idle
  arrived := []
  results := []
  calls := []
  others := []
  mark := 0
  heard := []
  stored := []
  ended := []

/-- The actions. -/
inductive Action (Tid : Type) where
  /-- The modem sends something. -/
  | arrive (text : Text)
  /-- The next step of the parser thread. -/
  | parse
  /-- `At::execWith` is called with a new response. -/
  | call (t : Tid) (bufSize : Nat)
  /-- The next step of thread `t`. -/
  | next (t : Tid)
  /-- The time-out of `rt_sem_take`. -/
  | timeout (t : Tid)
deriving DecidableEq, Repr

/-- `AtResponse::kLineNum`. -/
def kLineNum : Nat := 0

/-! ### Steps -/

/-- `ret` of a command whose response is complete. -/
def resultOf (status : AtRespStatus) : RtErr := if status ≠ .ok then .error else .ok

/-- The calls that a result of `at_recv_readline` leads to. -/
def callsOf (client : AtClient H) : Except RtErr Text → List (H × Text)
  | .ok line => ((getUrcObj client line).bind AtUrc.func).toList.map fun h => (h, line)
  | .error _ => []

section Steps

variable [DecidableEq Tid] (client : AtClient H)

/-- Thread `t` goes on to `pc`. -/
def System.goto (s : System Tid H) (t : Tid) (pc : Pc) : System Tid H :=
  { s with pc := Function.update s.pc t pc }

/-- `rt_sem_take(client->resp_notice, resp->timeout)`. -/
def System.take (s : System Tid H) (t : Tid) : System Tid H :=
  let r := rtSemTake s.respNotice t
  { s with respNotice := r.2 }.goto t (if r.1 then .woken else .suspended)

/-- `rt_sem_release(client->resp_notice)`. -/
def System.release (s : System Tid H) : System Tid H :=
  let r := rtSemRelease s.respNotice
  let s := { s with respNotice := r.2.1 }
  match r.2.2 with
  | some t => s.goto t .woken
  | none   => s

/-- A line goes into the response of thread `t`. -/
def System.store (s : System Tid H) (line : Text) (t : Tid) : System Tid H :=
  let r := parseResponse (s.response t) s.respStatus line
  { s with
    response := Function.update s.response t r.1
    respStatus := r.2.1
    heard := s.heard ++ [line]
    stored := s.stored ++ [line]
    parser := if r.2.2 then .clearing else .reading }

/-- The command of thread `t` returns. -/
def System.return (s : System Tid H) (t : Tid) (result : RtErr) : System Tid H :=
  let command : Ended Tid := ⟨t, result, s.response t, s.mark, s.heard, s.stored⟩
  { s with lock := (rtMutexRelease s.lock t).2, ended := s.ended ++ [command] }.goto t .idle

/-- The next step of thread `t`. -/
def next (s : System Tid H) (t : Tid) : Option (System Tid H) :=
  match s.pc t with
  | .idle             => none
  | .entered          => (rtMutexTake s.lock t).map fun r => { s with lock := r.2 }.goto t .locked
  | .locked           => some ({ s with respStatus := .ok }.goto t .statusSet)
  | .statusSet        =>
    some ({ s with resp := some t, mark := s.others.length, heard := [], stored := [] }.goto t
      .registered)
  -- the parser may have stored a line since `client->resp` was set
  | .registered       =>
    some ({ s with
      response := Function.update s.response t (s.response t).reset, stored := [] }.goto t .cleared)
  | .cleared          => some (s.goto t .sent)
  | .sent             => some (s.take t)
  | .suspended        => none
  | .woken            => some (s.goto t (.leaving (resultOf s.respStatus)))
  | .timedOut         => some ({ s with respStatus := .timeout }.goto t (.leaving .timeout))
  | .leaving result   => some ({ s with resp := none }.goto t (.unlocking result))
  | .unlocking result => some (s.return t result)

/-- The next step of the parser thread. -/
def parse (s : System Tid H) : Option (System Tid H) :=
  match s.parser with
  | .reading        =>
    (atRecvReadline client .start s.unread).map fun r =>
      { s with
        unread := r.2
        results := s.results ++ [r.1]
        parser := .ofResult r.1 }
  | .parsing line   =>
    match getUrcObj client line with
    | some urc =>
      some { s with
        calls := s.calls ++ urc.func.toList.map fun h => (h, line), parser := .reading }
    | none     => some { s with parser := .testing line }
  | .testing line   =>
    some { s with
      others := s.others ++ [line]
      parser := if s.resp.isSome then .loading line else .reading }
  | .loading line   =>
    match s.resp with
    | some t => some { s with parser := .storing line t }
    | none   => some { s with parser := .faulted }
  | .storing line t => some (s.store line t)
  | .clearing       => some { s with resp := none, parser := .notifying }
  | .notifying      => some { s.release with parser := .reading }
  | .faulted        => none

/-- One action. -/
def step (s : System Tid H) : Action Tid → Option (System Tid H)
  | .arrive text    => some { s with unread := s.unread ++ text, arrived := s.arrived ++ text }
  | .parse          => parse client s
  | .call t bufSize =>
    match s.pc t with
    | .idle => some ({ s with
        response := Function.update s.response t (atCreateResp bufSize kLineNum) }.goto t .entered)
    | _     => none
  | .next t         => next s t
  | .timeout t      =>
    match s.pc t with
    | .suspended =>
      (rtSemTimeout s.respNotice t).map fun sem => { s with respNotice := sem }.goto t .timedOut
    | _ => none

/-! ### What a step can do -/

/-- What the step of an action does, and what it presupposes. -/
inductive Did (s : System Tid H) : Action Tid → System Tid H → Prop
  | arrive (text : Text) :
      Did s (.arrive text) { s with unread := s.unread ++ text, arrived := s.arrived ++ text }
  | call {t : Tid} (bufSize : Nat) (hpc : s.pc t = .idle) :
      Did s (.call t bufSize) ({ s with
        response := Function.update s.response t (atCreateResp bufSize kLineNum) }.goto t .entered)
  | lock {t : Tid} {err : RtErr} {lock : RtMutex Tid} (hpc : s.pc t = .entered)
      (htake : rtMutexTake s.lock t = some (err, lock)) :
      Did s (.next t) ({ s with lock := lock }.goto t .locked)
  | setStatus {t : Tid} (hpc : s.pc t = .locked) :
      Did s (.next t) ({ s with respStatus := .ok }.goto t .statusSet)
  | register {t : Tid} (hpc : s.pc t = .statusSet) :
      Did s (.next t)
        ({ s with resp := some t, mark := s.others.length, heard := [], stored := [] }.goto t
          .registered)
  | reset {t : Tid} (hpc : s.pc t = .registered) :
      Did s (.next t) ({ s with
        response := Function.update s.response t (s.response t).reset, stored := [] }.goto t
          .cleared)
  | send {t : Tid} (hpc : s.pc t = .cleared) : Did s (.next t) (s.goto t .sent)
  | take {t : Tid} (hpc : s.pc t = .sent) : Did s (.next t) (s.take t)
  | wake {t : Tid} (hpc : s.pc t = .woken) :
      Did s (.next t) (s.goto t (.leaving (resultOf s.respStatus)))
  | expire {t : Tid} (hpc : s.pc t = .timedOut) :
      Did s (.next t) ({ s with respStatus := .timeout }.goto t (.leaving .timeout))
  | leave {t : Tid} {result : RtErr} (hpc : s.pc t = .leaving result) :
      Did s (.next t) ({ s with resp := none }.goto t (.unlocking result))
  | return {t : Tid} {result : RtErr} (hpc : s.pc t = .unlocking result) :
      Did s (.next t) (s.return t result)
  | timeout {t : Tid} {sem : RtSemaphore Tid} (hpc : s.pc t = .suspended)
      (hsem : rtSemTimeout s.respNotice t = some sem) :
      Did s (.timeout t) ({ s with respNotice := sem }.goto t .timedOut)
  | read {result : Except RtErr Text} {rest : Text} (hparser : s.parser = .reading)
      (hread : atRecvReadline client .start s.unread = some (result, rest)) :
      Did s .parse { s with
        unread := rest
        results := s.results ++ [result]
        parser := .ofResult result }
  | handle {line : Text} {urc : AtUrc H} (hparser : s.parser = .parsing line)
      (hurc : getUrcObj client line = some urc) :
      Did s .parse { s with
        calls := s.calls ++ urc.func.toList.map fun h => (h, line), parser := .reading }
  | pass {line : Text} (hparser : s.parser = .parsing line)
      (hurc : getUrcObj client line = none) : Did s .parse { s with parser := .testing line }
  | wanted {line : Text} {t : Tid} (hparser : s.parser = .testing line) (hresp : s.resp = some t) :
      Did s .parse { s with others := s.others ++ [line], parser := .loading line }
  | unwanted {line : Text} (hparser : s.parser = .testing line) (hresp : s.resp = none) :
      Did s .parse { s with others := s.others ++ [line], parser := .reading }
  | load {line : Text} {t : Tid} (hparser : s.parser = .loading line) (hresp : s.resp = some t) :
      Did s .parse { s with parser := .storing line t }
  | loadNull {line : Text} (hparser : s.parser = .loading line) (hresp : s.resp = none) :
      Did s .parse { s with parser := .faulted }
  | store {line : Text} {t : Tid} (hparser : s.parser = .storing line t) :
      Did s .parse (s.store line t)
  | clear (hparser : s.parser = .clearing) :
      Did s .parse { s with resp := none, parser := .notifying }
  | notify (hparser : s.parser = .notifying) : Did s .parse { s.release with parser := .reading }

variable {client} {s s' : System Tid H}

theorem next_did {t : Tid} (h : next s t = some s') : Did client s (.next t) s' := by
  unfold next at h
  cases hpc : s.pc t with
  | idle => simp [hpc] at h
  | suspended => simp [hpc] at h
  | entered =>
    simp only [hpc, Option.map_eq_some_iff] at h
    obtain ⟨⟨err, lock⟩, htake, rfl⟩ := h
    exact .lock hpc htake
  | locked => simp only [hpc, Option.some.injEq] at h; subst h; exact .setStatus hpc
  | statusSet => simp only [hpc, Option.some.injEq] at h; subst h; exact .register hpc
  | registered => simp only [hpc, Option.some.injEq] at h; subst h; exact .reset hpc
  | cleared => simp only [hpc, Option.some.injEq] at h; subst h; exact .send hpc
  | sent => simp only [hpc, Option.some.injEq] at h; subst h; exact .take hpc
  | woken => simp only [hpc, Option.some.injEq] at h; subst h; exact .wake hpc
  | timedOut => simp only [hpc, Option.some.injEq] at h; subst h; exact .expire hpc
  | leaving result => simp only [hpc, Option.some.injEq] at h; subst h; exact .leave hpc
  | unlocking result => simp only [hpc, Option.some.injEq] at h; subst h; exact .return hpc

omit [DecidableEq Tid] in
theorem parse_did [DecidableEq Tid] (h : parse client s = some s') : Did client s .parse s' := by
  unfold parse at h
  cases hparser : s.parser with
  | reading =>
    simp only [hparser, Option.map_eq_some_iff] at h
    obtain ⟨⟨result, rest⟩, hread, rfl⟩ := h
    exact .read hparser hread
  | parsing line =>
    cases hurc : getUrcObj client line with
    | some urc =>
      simp only [hparser, hurc, Option.some.injEq] at h
      subst h
      exact .handle hparser hurc
    | none =>
      simp only [hparser, hurc, Option.some.injEq] at h
      subst h
      exact .pass hparser hurc
  | testing line =>
    cases hresp : s.resp with
    | some t =>
      simp only [hparser, hresp, Option.isSome_some, if_true, Option.some.injEq] at h
      subst h
      have hdid : Did client s .parse _ := .wanted hparser hresp
      rwa [hresp] at hdid
    | none =>
      simp only [hparser, hresp, Option.isSome_none, Bool.false_eq_true, if_false,
        Option.some.injEq] at h
      subst h
      have hdid : Did client s .parse _ := .unwanted hparser hresp
      rwa [hresp] at hdid
  | loading line =>
    -- `client->resp` is read a second time, and may have become null
    cases hresp : s.resp with
    | some t =>
      simp only [hparser, hresp, Option.some.injEq] at h
      subst h
      have hdid : Did client s .parse _ := .load hparser hresp
      rwa [hresp] at hdid
    | none =>
      simp only [hparser, hresp, Option.some.injEq] at h
      subst h
      have hdid : Did client s .parse _ := .loadNull hparser hresp
      rwa [hresp] at hdid
  | storing line t =>
    simp only [hparser, Option.some.injEq] at h
    subst h
    exact .store hparser
  | clearing =>
    simp only [hparser, Option.some.injEq] at h
    subst h
    exact .clear hparser
  | notifying =>
    simp only [hparser, Option.some.injEq] at h
    subst h
    exact .notify hparser
  | faulted => simp [hparser] at h

/-- **Inversion**: a step is one of these. -/
theorem step_did {a : Action Tid} (h : step client s a = some s') : Did client s a s' := by
  cases a with
  | arrive text =>
    obtain rfl := Option.some.inj h
    exact .arrive text
  | parse => exact parse_did h
  | call t bufSize =>
    rw [step] at h
    split at h
    · rename_i hpc
      obtain rfl := Option.some.inj h
      exact .call bufSize hpc
    · cases h
  | next t => exact next_did h
  | timeout t =>
    rw [step] at h
    split at h
    · rename_i hpc
      obtain ⟨sem, hsem, rfl⟩ := Option.map_eq_some_iff.mp h
      exact .timeout hpc hsem
    · cases h

end Steps

/-! ### The stream -/

section Stream

variable (client : AtClient H)

/-- The lines that are tested for a response. -/
def othersOf : Except RtErr Text → List Text
  | .ok line => if (getUrcObj client line).isSome then [] else [line]
  | .error _ => []

/-- The handler that the line at the parser will have called. -/
def ParserPc.calling : ParserPc Tid → List (H × Text)
  | .parsing line => callsOf client (.ok line)
  | _             => []

/-- The line at the parser that will be tested. -/
def ParserPc.passing : ParserPc Tid → List Text
  | .parsing line => othersOf client (.ok line)
  | .testing line => [line]
  | _             => []

/-- What the parser thread has read and what it still will read is what the modem has sent, and
    every line that it has read was handled once, in order. -/
structure Streamed (s : System Tid H) : Prop where
  read : readLines client s.arrived
    = (s.results ++ (readLines client s.unread).1, (readLines client s.unread).2)
  calls : s.calls ++ s.parser.calling client = s.results.flatMap (callsOf client)
  others : s.others ++ s.parser.passing client = s.results.flatMap (othersOf client)

/-- What the parser thread has to do with. -/
def System.stream (s : System Tid H) :
    Text × Text × List (Except RtErr Text) × List (H × Text) × List Text × ParserPc Tid :=
  (s.arrived, s.unread, s.results, s.calls, s.others, s.parser)

variable {client} {s s' : System Tid H}

theorem Streamed.congr (h : Streamed client s) (hstream : s'.stream = s.stream) :
    Streamed client s' := by
  simp only [System.stream, Prod.mk.injEq] at hstream
  obtain ⟨harrived, hunread, hresults, hcalls, hothers, hparser⟩ := hstream
  refine ⟨?_, ?_, ?_⟩
  · rw [harrived, hunread, hresults]
    exact h.read
  · rw [hcalls, hparser, hresults]
    exact h.calls
  · rw [hothers, hparser, hresults]
    exact h.others

theorem release_stream [DecidableEq Tid] (s : System Tid H) : s.release.stream = s.stream := by
  unfold System.release
  simp only
  split <;> rfl

/-- The parser thread takes a result from the stream. -/
theorem Streamed.read_line (h : Streamed client s) {result : Except RtErr Text} {rest : Text}
    (hparser : s.parser = .reading)
    (hread : atRecvReadline client .start s.unread = some (result, rest)) :
    Streamed client
      { s with unread := rest, results := s.results ++ [result], parser := .ofResult result } := by
  have hread' := h.read
  have hcalls := h.calls
  have hothers := h.others
  rw [readLines_cons hread] at hread'
  simp only [hparser, ParserPc.calling, ParserPc.passing, List.append_nil] at hcalls hothers
  refine ⟨by rw [hread']; simp, ?_, ?_⟩
  · rw [List.flatMap_append, ← hcalls]
    cases result <;> simp [ParserPc.ofResult, ParserPc.calling, callsOf]
  · rw [List.flatMap_append, ← hothers]
    cases result <;> simp [ParserPc.ofResult, ParserPc.passing, othersOf]

/-- A line is handled, or turns out to be another one. -/
theorem Streamed.parse_line (h : Streamed client s) {line : Text}
    (hparser : s.parser = .parsing line) :
    (∀ urc, getUrcObj client line = some urc → Streamed client { s with
      calls := s.calls ++ urc.func.toList.map fun h => (h, line), parser := .reading }) ∧
    (getUrcObj client line = none → Streamed client { s with parser := .testing line }) := by
  have hcalls := h.calls
  have hothers := h.others
  simp only [hparser, ParserPc.calling, ParserPc.passing, callsOf, othersOf] at hcalls hothers
  constructor
  · intro urc hurc
    simp only [hurc, Option.bind_some, Option.isSome_some, if_true, List.append_nil]
      at hcalls hothers
    exact ⟨h.read, by simpa [ParserPc.calling] using hcalls,
      by simpa [ParserPc.passing] using hothers⟩
  · intro hurc
    simp only [hurc, Option.bind_none, Option.toList_none, List.map_nil, List.append_nil,
      Option.isSome_none, Bool.false_eq_true, if_false] at hcalls hothers
    exact ⟨h.read, by simpa [ParserPc.calling] using hcalls,
      by simpa [ParserPc.passing] using hothers⟩

/-- A line is tested. -/
theorem Streamed.test_line (h : Streamed client s) {line : Text} (hparser : s.parser = .testing line)
    {parser : ParserPc Tid} (hnew : parser.calling client = [] ∧ parser.passing client = []) :
    Streamed client { s with others := s.others ++ [line], parser := parser } := by
  have hcalls := h.calls
  have hothers := h.others
  simp only [hparser, ParserPc.calling, ParserPc.passing] at hcalls hothers
  refine ⟨h.read, ?_, ?_⟩
  · rw [hnew.1]
    exact hcalls
  · rw [hnew.2, List.append_nil]
    exact hothers

/-- The parser goes on without a line. -/
theorem Streamed.goto_parser (h : Streamed client s)
    (hold : s.parser.calling client = [] ∧ s.parser.passing client = [])
    (hstream : s'.stream = { s with parser := s'.parser }.stream)
    (hnew : s'.parser.calling client = [] ∧ s'.parser.passing client = []) :
    Streamed client s' := by
  simp only [System.stream, Prod.mk.injEq] at hstream
  obtain ⟨harrived, hunread, hresults, hcalls, hothers, -⟩ := hstream
  refine ⟨?_, ?_, ?_⟩
  · rw [harrived, hunread, hresults]
    exact h.read
  · rw [hcalls, hresults, hnew.1, ← hold.1]
    exact h.calls
  · rw [hothers, hresults, hnew.2, ← hold.2]
    exact h.others

/-- **No step loses or repeats a line.** -/
theorem Streamed.step [DecidableEq Tid] (h : Streamed client s) {a : Action Tid}
    (hstep : AtExec.step client s a = some s') : Streamed client s' := by
  cases step_did hstep with
  | arrive text =>
    refine ⟨?_, h.calls, h.others⟩
    rw [readLines_append, readLines_append s.unread, h.read]
    simp
  | call bufSize hpc => exact h.congr rfl
  | lock hpc htake => exact h.congr rfl
  | setStatus hpc => exact h.congr rfl
  | register hpc => exact h.congr rfl
  | reset hpc => exact h.congr rfl
  | send hpc => exact h.congr rfl
  | take hpc => exact h.congr rfl
  | wake hpc => exact h.congr rfl
  | expire hpc => exact h.congr rfl
  | leave hpc => exact h.congr rfl
  | «return» hpc => exact h.congr rfl
  | timeout hpc hsem => exact h.congr rfl
  | read hparser hread => exact h.read_line hparser hread
  | handle hparser hurc => exact (h.parse_line hparser).1 _ hurc
  | pass hparser hurc => exact (h.parse_line hparser).2 hurc
  | wanted hparser hresp => exact h.test_line hparser ⟨rfl, rfl⟩
  | unwanted hparser hresp => exact h.test_line hparser ⟨rfl, rfl⟩
  | load hparser hresp => exact h.goto_parser (by rw [hparser]; exact ⟨rfl, rfl⟩) rfl ⟨rfl, rfl⟩
  | loadNull hparser hresp =>
    exact h.goto_parser (by rw [hparser]; exact ⟨rfl, rfl⟩) rfl ⟨rfl, rfl⟩
  | store hparser =>
    refine h.goto_parser (by rw [hparser]; exact ⟨rfl, rfl⟩) rfl ?_
    simp only [System.store]
    split_ifs <;> exact ⟨rfl, rfl⟩
  | clear hparser => exact h.goto_parser (by rw [hparser]; exact ⟨rfl, rfl⟩) rfl ⟨rfl, rfl⟩
  | notify hparser =>
    refine Streamed.goto_parser h (by rw [hparser]; exact ⟨rfl, rfl⟩) ?_ ⟨rfl, rfl⟩
    have hrel := release_stream s
    simp only [System.stream, Prod.mk.injEq] at hrel ⊢
    exact ⟨hrel.1, hrel.2.1, hrel.2.2.1, hrel.2.2.2.1, hrel.2.2.2.2.1, trivial⟩

end Stream

end RtCharger.Net.AtExec
